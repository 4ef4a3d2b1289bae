import TorchOS.Screen
import TorchOS.Base.Sheet

/-!
# Where text with newlines goes

A newline begins a new row even in the last row of the screen, and only a text that
fills the last row goes on in the first. So lines that end in a newline go on below the
screen, through the memory behind it, until they reach the kernel at 1 MiB. Up to there
memory shows the text as on a sheet without end.
-/

namespace TorchOS.Tty

open Base Base.Program

/-- The screen as a sheet. -/
def sheet : Sheet UInt8 where
  width := 80
  height := 25
  breaks := fun c => decide (c = newline)

/-- How many cells of two bytes there are from video memory to the kernel. -/
def cellsBelowKernel : Nat := (kernelStart.toNat - vgaMemory.toNat) / 2

/-- The memory from the screen up to the kernel. -/
def belowKernel : Set UInt32 := Span vgaMemory (2 * cellsBelowKernel)

theorem cellsBelowKernel_eq : cellsBelowKernel = 147456 := rfl

/-- What the two bytes of a cell are after a text: its last character in light grey,
or a blank on the screen, or what they were. -/
def cellBytes (mem : Bytes) (text : List UInt8) (cell : Nat) : List UInt8 :=
  match sheet.shown text cell with
  | some c => [c, 7]
  | none => if cell < 2000 then [0x20, 7] else mem.read (cellAt cell) 2

/-- The terminal after a text that stays below the kernel: the cursor, every cell, the
stores made, and the rest of memory as it was. -/
structure Placed (mem : Bytes) (text : List UInt8) (s : Terminal) : Prop where
  ptr : s.terminalPtr = vgaMemory
  color : s.terminalColor = 7
  row : s.terminalRow.toNat = (sheet.cursor text).row
  column : s.terminalColumn.toNat = (sheet.cursor text).column
  cells : ∀ cell < cellsBelowKernel, s.mem.read (cellAt cell) 2 = cellBytes mem text cell
  outside : ∀ address ∉ belowKernel, s.mem address = mem address
  stored : s.cells = (sheet.placed text).map fun entry => UInt32.ofNat entry.1

/-- Every character of a text is stored below the kernel. -/
def StaysBelow (text : List UInt8) : Prop :=
  ∀ entry ∈ sheet.placed text, entry.1 < cellsBelowKernel

/-- What a call prints, if the data it is given lies outside the memory printed to. -/
def Call.Gives (mem : Bytes) : Call → List UInt8 → Prop
  | .putchar c, bytes => bytes = [c]
  | .write data size, bytes =>
      bytes = mem.read data size.toNat ∧ Disjoint (Span data size.toNat) belowKernel
  | .print data, bytes =>
      Lib.CString mem data bytes ∧ Disjoint (Span data (bytes.length + 1)) belowKernel

/-! ## One cell -/

theorem toNat_cellAt_below {cell : Nat} (inside : cell < cellsBelowKernel) :
    (cellAt cell).toNat = 0xb8000 + 2 * cell := by
  rw [cellsBelowKernel_eq] at inside
  rw [cellAt, UInt32.toNat_add, UInt32.toNat_ofNat', toNat_vgaMemory]
  omega

theorem cell_subset_below {cell : Nat} (inside : cell < cellsBelowKernel) :
    Span (cellAt cell) 2 ⊆ belowKernel := by
  rw [cellsBelowKernel_eq] at inside
  have small : (UInt32.ofNat (2 * cell)).toNat = 2 * cell :=
    UInt32.toNat_ofNat_of_lt' (by simp [UInt32.size]; omega)
  apply Span.shift_subset
  rw [small, cellsBelowKernel_eq]
  omega

theorem cell_disjoint_below {cell other : Nat} (inside : cell < cellsBelowKernel)
    (otherInside : other < cellsBelowKernel) (apart : other ≠ cell) :
    Disjoint (Span (cellAt other) 2) (Span (cellAt cell) 2) := by
  have first := toNat_cellAt_below inside
  have second := toNat_cellAt_below otherInside
  rw [cellsBelowKernel_eq] at inside otherInside
  rcases Nat.lt_or_gt_of_ne apart with below | above
  · exact Span.disjoint_of_le (by omega) (by omega)
  · exact (Span.disjoint_of_le (by omega) (by omega)).symm

section SetCell

variable {s : Terminal} {cell other : Nat} {c : UInt8}

theorem setCell_read_below (ptr : s.terminalPtr = vgaMemory) (inside : cell < cellsBelowKernel)
    (otherInside : other < cellsBelowKernel) :
    (s.setCell (UInt32.ofNat cell) (vgaChar 7 c)).mem.read (cellAt other) 2 =
      if cell = other then [c, 7] else s.mem.read (cellAt other) 2 := by
  rw [setCell_mem ptr]
  by_cases here : cell = other
  · subst other
    rw [if_pos rfl]
    exact Bytes.read_write_same (by simp)
  · rw [if_neg here]
    exact Bytes.read_write_of_disjoint (cell_disjoint_below inside otherInside (Ne.symm here))

theorem setCell_outside_below (ptr : s.terminalPtr = vgaMemory) (inside : cell < cellsBelowKernel)
    {address : UInt32} (outside : address ∉ belowKernel) :
    (s.setCell (UInt32.ofNat cell) (vgaChar 7 c)).mem address = s.mem address := by
  rw [setCell_mem ptr]
  exact Bytes.write_of_notMem fun member => outside (cell_subset_below inside member)

end SetCell

/-! ## One character -/

section Putchar

variable {mem : Bytes} {text bytes : List UInt8} {s : Terminal} {c : UInt8}

theorem breaks_iff : sheet.breaks c = true ↔ c = newline := by simp [sheet]

theorem not_breaks_iff : sheet.breaks c = false ↔ c ≠ newline := by simp [sheet]

/-- The index that `terminal_put_at` computes. -/
theorem Placed.index (placed : Placed mem text s) :
    s.terminalRow * vgaWidth + s.terminalColumn =
      UInt32.ofNat (sheet.index (sheet.cursor text)) := by
  rw [Sheet.index, ← placed.row, ← placed.column, UInt32.ofNat_add, UInt32.ofNat_mul,
    UInt32.ofNat_toNat, UInt32.ofNat_toNat]
  rfl

theorem toNat_add_one {value : UInt32} (small : value.toNat + 1 < 2 ^ 32) :
    (value + 1).toNat = value.toNat + 1 := by
  have one : (1 : UInt32).toNat = 1 := rfl
  rw [UInt32.toNat_add, one]
  omega

/-- The cursor moves as on the sheet. -/
theorem advanceCursor_places {place : Cursor} (row : s.terminalRow.toNat = place.row)
    (column : s.terminalColumn.toNat = place.column) (small : place.row + 1 < 2 ^ 32)
    (inside : place.column < 80) (ordinary : c ≠ newline) :
    ∃ after, advanceCursor s = .ok () after ∧ after.mem = s.mem ∧
      after.terminalPtr = s.terminalPtr ∧ after.terminalColor = s.terminalColor ∧
      after.cells = s.cells ∧ after.terminalRow.toNat = (sheet.advance place c).row ∧
      after.terminalColumn.toNat = (sheet.advance place c).column := by
  have nextRow : (s.terminalRow + 1).toNat = place.row + 1 := by
    rw [toNat_add_one (by omega), row]
  have nextColumn : (s.terminalColumn + 1).toNat = place.column + 1 := by
    rw [toNat_add_one (by omega), column]
  have noBreak : sheet.breaks c = false := not_breaks_iff.mpr ordinary
  have full : s.terminalColumn + 1 = vgaWidth ↔ place.column + 1 = 80 := by
    rw [← UInt32.toNat_inj, nextColumn]
    rfl
  have last : s.terminalRow + 1 = vgaHeight ↔ place.row + 1 = 25 := by
    rw [← UInt32.toNat_inj, nextRow]
    rfl
  have shape : sheet.advance place c =
      if place.column + 1 = 80 then ⟨if place.row + 1 = 25 then 0 else place.row + 1, 0⟩
      else ⟨place.row, place.column + 1⟩ := by
    rw [Sheet.advance, noBreak]
    rfl
  rw [advanceCursor, update_run, shape]
  refine ⟨_, rfl, ?_⟩
  by_cases isFull : place.column + 1 = 80
  · rw [if_pos (full.mpr isFull), if_pos isFull]
    refine ⟨rfl, rfl, rfl, rfl, ?_, rfl⟩
    by_cases isLast : place.row + 1 = 25
    · simp [last.mpr isLast, isLast]
    · simp [mt last.mp isLast, isLast, nextRow]
  · rw [if_neg (mt full.mp isFull), if_neg isFull]
    exact ⟨rfl, rfl, rfl, rfl, row, nextColumn⟩

/-- A character goes to the cell of the cursor, unless it is a newline. -/
theorem Placed.putchar (placed : Placed mem text s) (short : text.length + 1 < 2 ^ 32)
    (below : c ≠ newline → sheet.index (sheet.cursor text) < cellsBelowKernel) :
    ∃ after, terminalPutchar c s = .ok () after ∧ Placed mem (text ++ [c]) after := by
  have rowSmall : (sheet.cursor text).row + 1 < 2 ^ 32 := by
    have bound : (sheet.cursor text).row ≤ text.length := Sheet.row_le
    omega
  by_cases isNewline : c = newline
  · subst isNewline
    have isBreak : sheet.breaks newline = true := breaks_iff.mpr rfl
    refine ⟨_, terminalPutchar_newline s, ?_⟩
    constructor
    · exact placed.ptr
    · exact placed.color
    · rw [Sheet.cursor_snoc, Sheet.advance, if_pos isBreak]
      change (s.terminalRow + 1).toNat = _
      rw [toNat_add_one (by rw [placed.row]; exact rowSmall), placed.row]
    · rw [Sheet.cursor_snoc, Sheet.advance, if_pos isBreak]
      rfl
    · intro cell inside
      rw [cellBytes, Sheet.shown_break isBreak]
      exact placed.cells cell inside
    · exact placed.outside
    · rw [Sheet.placed_break isBreak]
      exact placed.stored
  · have inside := below isNewline
    have ordinary : sheet.breaks c = false := not_breaks_iff.mpr isNewline
    have columnInside : (sheet.cursor text).column < 80 :=
      Sheet.column_lt (by decide : 0 < sheet.width)
    have stored : (s.printed c).mem =
        (s.setCell (UInt32.ofNat (sheet.index (sheet.cursor text))) (vgaChar 7 c)).mem := by
      rw [← placed.index, ← placed.color]
      rfl
    obtain ⟨after, returned, mem_eq, ptr, color, cells, row, column⟩ :=
      advanceCursor_places (s := s.printed c) placed.row placed.column rowSmall columnInside
        isNewline
    refine ⟨after, (terminalPutchar_other s isNewline).trans returned, ?_⟩
    constructor
    · rw [ptr]
      exact placed.ptr
    · rw [color]
      exact placed.color
    · rw [row, Sheet.cursor_snoc]
    · rw [column, Sheet.cursor_snoc]
    · intro cell cellInside
      rw [mem_eq, stored, setCell_read_below placed.ptr inside cellInside, cellBytes,
        Sheet.shown_ordinary ordinary, placed.cells cell cellInside, cellBytes]
      split <;> rfl
    · intro address away
      rw [mem_eq, stored, setCell_outside_below placed.ptr inside away, placed.outside address away]
    · rw [cells, Sheet.placed_ordinary ordinary, List.map_append, ← placed.stored]
      simp [Terminal.printed, placed.index]

theorem StaysBelow.of_prefix {whole : List UInt8} (below : StaysBelow whole)
    (start : text <+: whole) : StaysBelow text :=
  fun entry member => below entry ((Sheet.placed_prefix start).subset member)

/-- Where the last character of a text that stays below goes. -/
theorem StaysBelow.last (below : StaysBelow (text ++ [c])) (ordinary : c ≠ newline) :
    sheet.index (sheet.cursor text) < cellsBelowKernel := by
  refine below (sheet.index (sheet.cursor text), c) ?_
  rw [Sheet.placed_ordinary (not_breaks_iff.mpr ordinary)]
  simp

end Putchar

/-! ## Calls -/

section Calls

variable {mem : Bytes} {text bytes : List UInt8} {s : Terminal} {c : UInt8}

/-- The loop of `terminal_write`. -/
def writeLoop (data : UInt32) (count : Nat) : Code Unit :=
  times (fun i => do
    let c ← read fun s => s.mem (data + UInt32.ofNat i)
    terminalPutchar c) count

theorem terminalWrite_eq (data size : UInt32) :
    terminalWrite data size = writeLoop data size.toNat := rfl

theorem read_succ_snoc (data : UInt32) (count : Nat) :
    mem.read data (count + 1) = mem.read data count ++ [mem (data + UInt32.ofNat count)] := by
  rw [Bytes.read_add]
  simp [Bytes.read]

/-- One more round prints the next byte of the data. -/
theorem writeLoop_succ {data : UInt32} {count : Nat} {middle : Terminal}
    (soFar : writeLoop data count s = .ok () middle)
    (same : middle.mem (data + UInt32.ofNat count) = c) :
    writeLoop data (count + 1) s = terminalPutchar c middle := by
  refine (bind_of_ok soFar).trans ((bind_of_ok (read_run _ _)).trans ?_)
  rw [same]

theorem Placed.writes (placed : Placed mem text s) {data : UInt32} {count : Nat}
    (apart : Disjoint (Span data count) belowKernel)
    (short : text.length + count < 2 ^ 32) (below : StaysBelow (text ++ mem.read data count)) :
    ∃ after, writeLoop data count s = .ok () after ∧
      Placed mem (text ++ mem.read data count) after := by
  induction count with
  | zero =>
      refine ⟨s, rfl, ?_⟩
      simpa [Bytes.read] using placed
  | succ count ih =>
      have shorter : Span data count ⊆ Span data (count + 1) := Span.mono (by omega)
      rw [read_succ_snoc, ← List.append_assoc] at below ⊢
      obtain ⟨middle, run, before⟩ := ih (apart.mono_left shorter) (by omega)
        (below.of_prefix (List.prefix_append _ _))
      have inside : data + UInt32.ofNat count ∈ Span data (count + 1) :=
        Span.add_ofNat_mem (by omega)
      have same := before.outside _ (Set.disjoint_left.mp apart inside)
      obtain ⟨after, printed, shown⟩ := before.putchar (by simp; omega) below.last
      exact ⟨after, (writeLoop_succ run same).trans printed, shown⟩

/-- A string that is printed is read as it was. -/
theorem Placed.strlen (placed : Placed mem text s) {data : UInt32}
    (string : Lib.CString mem data bytes)
    (apart : Disjoint (Span data (bytes.length + 1)) belowKernel) :
    Tty.strlen data s = .ok (UInt32.ofNat bytes.length) s := by
  have kept : Lib.CString s.mem data bytes :=
    string.congr fun address inside =>
      placed.outside address (Set.disjoint_left.mp apart inside)
  exact strlen_run kept

/-- Every call is the loop of `terminal_write` over the data it is given, but for single
characters. -/
theorem Placed.call_eq (placed : Placed mem text s) {call : Call} (given : call.Gives mem bytes) :
    (∃ c, bytes = [c] ∧ call.run s = terminalPutchar c s) ∨
      ∃ data, bytes = mem.read data bytes.length ∧
        Disjoint (Span data bytes.length) belowKernel ∧
        call.run s = writeLoop data bytes.length s := by
  cases call with
  | putchar c => exact .inl ⟨c, given, rfl⟩
  | write data size =>
      obtain ⟨rfl, apart⟩ := given
      have length : (mem.read data size.toNat).length = size.toNat := by simp
      refine .inr ⟨data, ?_, ?_, ?_⟩
      · rw [length]
      · rwa [length]
      · rw [length]
        rfl
  | print data =>
      obtain ⟨string, apart⟩ := given
      have shorter : Span data bytes.length ⊆ Span data (bytes.length + 1) :=
        Span.mono (by omega)
      have count : (UInt32.ofNat bytes.length).toNat = bytes.length :=
        UInt32.toNat_ofNat_of_lt' string.length_lt
      refine .inr ⟨data, string.read.symm, apart.mono_left shorter, ?_⟩
      refine (bind_of_ok (placed.strlen string apart)).trans ?_
      rw [terminalWrite_eq, count]

/-- A call prints what it is given. -/
theorem Placed.call (placed : Placed mem text s) {call : Call} (given : call.Gives mem bytes)
    (short : text.length + bytes.length < 2 ^ 32) (below : StaysBelow (text ++ bytes)) :
    ∃ after, call.run s = .ok () after ∧ Placed mem (text ++ bytes) after := by
  rcases placed.call_eq given with ⟨c, rfl, run⟩ | ⟨data, same, apart, run⟩
  · rw [run]
    exact placed.putchar short below.last
  · rw [run]
    rw [same] at below
    obtain ⟨after, returned, shown⟩ := placed.writes apart short below
    exact ⟨after, returned, by rwa [same]⟩

theorem Placed.calls {calls : List (Call × List UInt8)} (placed : Placed mem text s)
    (given : ∀ call ∈ calls, call.1.Gives mem call.2)
    (short : text.length + (calls.flatMap Prod.snd).length < 2 ^ 32)
    (below : StaysBelow (text ++ calls.flatMap Prod.snd)) :
    ∃ after, printAll (calls.map Prod.fst) s = .ok () after ∧
      Placed mem (text ++ calls.flatMap Prod.snd) after := by
  induction calls generalizing text s with
  | nil => exact ⟨s, rfl, by simpa using placed⟩
  | cons call rest ih =>
      rw [List.flatMap_cons, ← List.append_assoc] at below ⊢
      rw [List.flatMap_cons, List.length_append] at short
      obtain ⟨first, others⟩ := List.forall_mem_cons.mp given
      obtain ⟨middle, run, before⟩ :=
        placed.call first (by omega) (below.of_prefix (List.prefix_append _ _))
      obtain ⟨after, runs, shown⟩ := ih before others (by rw [List.length_append]; omega) below
      exact ⟨after, (bind_of_ok run).trans runs, shown⟩

/-- `init_terminal` leaves a blank sheet. -/
theorem initTerminal_placed {start : Terminal}
    (started : initTerminal (Terminal.boot mem) = .ok () start) : Placed mem [] start := by
  have shows := initTerminal_shows started
  obtain ⟨_, returned, row, column, _, cells⟩ := initTerminal_run mem
  cases started.symm.trans returned
  have screen_below : screen ⊆ belowKernel := Span.mono (by decide)
  constructor
  · exact shows.ptr
  · exact shows.color
  · rw [row]
    rfl
  · rw [column]
    rfl
  · intro cell inside
    rw [cellBytes]
    by_cases onScreen : cell < 2000
    · rw [shows.cells cell onScreen]
      simp [Sheet.shown, onScreen, shown]
    · have place := toNat_cellAt_below inside
      rw [cellsBelowKernel_eq] at inside
      have away : Disjoint screen (Span (cellAt cell) 2) := by
        apply Span.disjoint_of_le
        · rw [place, toNat_vgaMemory]
          omega
        · omega
      rw [Bytes.read_congr fun address member =>
        shows.outside address (Set.disjoint_right.mp away member)]
      simp [Sheet.shown, onScreen]
  · exact fun address away => shows.outside address fun member => away (screen_below member)
  · rw [cells]
    rfl

/-- After any text that stays below the kernel, however it is divided among calls, the
cursor and every cell are as on a sheet of 80 columns, and the rest of memory is as it
was. -/
theorem text_placed {start : Terminal} {calls : List (Call × List UInt8)}
    (started : initTerminal (Terminal.boot mem) = .ok () start)
    (given : ∀ call ∈ calls, call.1.Gives mem call.2)
    (short : (calls.flatMap Prod.snd).length < 2 ^ 32)
    (below : StaysBelow (calls.flatMap Prod.snd)) :
    ∃ s, printAll (calls.map Prod.fst) start = .ok () s ∧
      Placed mem (calls.flatMap Prod.snd) s :=
  (initTerminal_placed started).calls given (by simpa using short) below

/-- A character, a newline and another character. -/
theorem text_placed_two_rows :
    ∃ start s, initTerminal (Terminal.boot fun _ => 0) = .ok () start ∧
      printAll [.putchar 72, .putchar newline, .putchar 105] start = .ok () s ∧
      Placed (fun _ => 0) [72, newline, 105] s := by
  obtain ⟨start, started, _⟩ := initTerminal_run fun _ => 0
  have given : ∀ call ∈ [(Call.putchar 72, [72]), (Call.putchar newline, [newline]),
      (Call.putchar 105, [105])], call.1.Gives (fun _ => 0) call.2 := by
    simp [Call.Gives]
  have below : StaysBelow [72, newline, 105] := by
    rw [StaysBelow, cellsBelowKernel_eq]
    decide
  obtain ⟨s, returned, placed⟩ := text_placed started given (by decide) below
  exact ⟨start, s, started, returned, placed⟩

end Calls

/-! ## Stores stay made -/

/-- The history of stores only grows. -/
def Grew (s after : Terminal) : Prop := s.cells <+: after.cells

theorem Grew.refl (s : Terminal) : Grew s s := List.prefix_rfl

theorem Grew.trans (a b c : Terminal) (first : Grew a b) (second : Grew b c) : Grew a c :=
  List.IsPrefix.trans first second

theorem terminalPutchar_grew (c : UInt8) : Respects Grew (terminalPutchar c) := by
  intro s
  by_cases isNewline : c = newline
  · subst isNewline
    exact Grew.refl s
  · rw [terminalPutchar_other s isNewline, advanceCursor, update_run, final_ok]
    have grown : Grew s (s.printed c) := List.prefix_append _ _
    split <;> exact grown

theorem writeLoop_grew (data : UInt32) (count : Nat) : Respects Grew (writeLoop data count) := by
  apply Respects.times Grew.refl Grew.trans
  intro index
  exact Respects.bind Grew.trans Grew.refl terminalPutchar_grew

theorem Call.grew (call : Call) : Respects Grew call.run := by
  cases call with
  | putchar c => exact terminalPutchar_grew c
  | write data size => exact writeLoop_grew data size.toNat
  | print data =>
      apply Respects.bind Grew.trans
      · apply Respects.loop Grew.refl Grew.trans
        intro len s
        exact Grew.refl s
      · exact fun size => writeLoop_grew data size.toNat

theorem printAll_grew (calls : List Call) : Respects Grew (printAll calls) := by
  induction calls with
  | nil => exact Grew.refl
  | cons call rest ih => exact Respects.bind Grew.trans call.grew fun _ => ih

/-- Later rounds of `terminal_write` keep the stores of earlier ones. -/
theorem writeLoop_grows {data : UInt32} {count more : Nat} {s middle after : Terminal}
    (soFar : writeLoop data count s = .ok () middle)
    (returned : writeLoop data (count + more) s = .ok () after) : Grew middle after := by
  induction more generalizing after with
  | zero =>
      cases soFar.symm.trans returned
      exact Grew.refl _
  | succ more ih =>
      obtain ⟨_, before, earlier, last⟩ := bind_ok_iff.mp returned
      have step : Respects Grew (do
          let c ← read fun s => s.mem (data + UInt32.ofNat (count + more))
          terminalPutchar c : Code Unit) :=
        Respects.bind Grew.trans Grew.refl terminalPutchar_grew
      exact Grew.trans _ _ _ (ih earlier) (step.of_ok last)

/-! ## A store beyond the limit -/

section Escape

variable {mem : Bytes} {text bytes before rest : List UInt8} {s after : Terminal} {c : UInt8}

/-- A store was made at or above the kernel. -/
def ReachedKernel (s : Terminal) : Prop := ∃ index ∈ s.cells, cellsBelowKernel ≤ index.toNat

theorem ReachedKernel.grow (reached : ReachedKernel s) (grew : Grew s after) :
    ReachedKernel after := by
  obtain ⟨index, member, far⟩ := reached
  exact ⟨index, grew.subset member, far⟩

/-- The character `c`, coming after `text`, goes to a cell at or above the kernel. -/
structure Escapes (text : List UInt8) (c : UInt8) : Prop where
  ordinary : c ≠ newline
  short : text.length < 2 ^ 32
  below : StaysBelow text
  far : cellsBelowKernel ≤ sheet.index (sheet.cursor text)
  near : sheet.index (sheet.cursor text) < 2 ^ 32

theorem Placed.putchar_escapes (placed : Placed mem text s) (escapes : Escapes text c)
    (returned : terminalPutchar c s = .ok () after) : ReachedKernel after := by
  have cells : after.cells = s.cells ++ [s.terminalRow * vgaWidth + s.terminalColumn] := by
    rw [terminalPutchar_other s escapes.ordinary, advanceCursor, update_run] at returned
    cases returned
    split <;> rfl
  refine ⟨s.terminalRow * vgaWidth + s.terminalColumn, by simp [cells], ?_⟩
  rw [placed.index, UInt32.toNat_ofNat_of_lt' escapes.near]
  exact escapes.far

theorem Placed.call_escapes (placed : Placed mem text s) {call : Call}
    (given : call.Gives mem (before ++ c :: rest)) (escapes : Escapes (text ++ before) c)
    (returned : call.run s = .ok () after) : ReachedKernel after := by
  rcases placed.call_eq given with ⟨single, alone, run⟩ | ⟨data, same, apart, run⟩
  · rw [run] at returned
    obtain ⟨rfl, rfl, rfl⟩ : before = [] ∧ c = single ∧ rest = [] := by
      cases before with
      | nil => simpa using alone
      | cons head tail => simp at alone
    exact placed.putchar_escapes (by simpa using escapes) returned
  · rw [run] at returned
    have length : (before ++ c :: rest).length = before.length + 1 + rest.length := by
      simp
      omega
    rw [length] at returned same apart
    have parts : mem.read data (before.length + 1 + rest.length) =
        mem.read data before.length ++ mem (data + UInt32.ofNat before.length) ::
          mem.read (data + UInt32.ofNat (before.length + 1)) rest.length := by
      rw [Bytes.read_add, read_succ_snoc, List.append_assoc]
      rfl
    obtain ⟨first, second⟩ := List.append_inj (same.trans parts) (by simp)
    obtain ⟨here, _⟩ := List.cons_eq_cons.mp second
    have shorter : Span data before.length ⊆ Span data (before.length + 1 + rest.length) :=
      Span.mono (by omega)
    have short := escapes.short
    have below := escapes.below
    rw [List.length_append] at short
    rw [first] at below
    obtain ⟨middle, run, placed⟩ := placed.writes (apart.mono_left shorter) short below
    rw [← first] at placed
    have inside : data + UInt32.ofNat before.length ∈
        Span data (before.length + 1 + rest.length) := Span.add_ofNat_mem (by omega)
    have kept := placed.outside _ (Set.disjoint_left.mp apart inside)
    obtain ⟨next, printed⟩ := terminalPutchar_returns middle c
    have upTo := (writeLoop_succ run (kept.trans here.symm)).trans printed
    exact (placed.putchar_escapes escapes printed).grow (writeLoop_grows upTo returned)

/-- Some call stores the character that escapes. -/
theorem Placed.calls_escape {calls : List (Call × List UInt8)} (placed : Placed mem text s)
    (given : ∀ call ∈ calls, call.1.Gives mem call.2)
    (split : calls.flatMap Prod.snd = before ++ c :: rest) (escapes : Escapes (text ++ before) c)
    (returned : printAll (calls.map Prod.fst) s = .ok () after) : ReachedKernel after := by
  induction calls generalizing text s before with
  | nil => simp at split
  | cons call others ih =>
      obtain ⟨first, later⟩ := List.forall_mem_cons.mp given
      obtain ⟨_, middle, ran, runs⟩ := bind_ok_iff.mp returned
      rw [List.flatMap_cons] at split
      rcases List.append_eq_append_iff.mp split with ⟨more, rfl, found⟩ | ⟨more, same, found⟩
      · -- the call comes before
        have short := escapes.short
        rw [List.length_append, List.length_append] at short
        rw [← List.append_assoc] at escapes
        obtain ⟨middle', ran', placed⟩ := placed.call first (by omega)
          (escapes.below.of_prefix (List.prefix_append _ _))
        cases ran'.symm.trans ran
        exact ih placed later found escapes runs
      · cases more with
        | nil =>
            rw [List.append_nil] at same
            subst same
            obtain ⟨middle', ran', placed⟩ := placed.call first
              (by simpa using escapes.short) escapes.below
            cases ran'.symm.trans ran
            have whole : others.flatMap Prod.snd = [] ++ c :: rest := found.symm
            have escapes' : Escapes (text ++ call.2 ++ []) c := by rwa [List.append_nil]
            exact ih placed later whole escapes' runs
        | cons head tail =>
            obtain ⟨rfl, _⟩ := List.cons_eq_cons.mp found
            rw [same] at first
            exact (placed.call_escapes first escapes ran).grow
              ((printAll_grew _).of_ok runs)

end Escape

/-! ## Lines -/

/-- Lines with something on them that each fit a row of the screen. -/
def Short (lines : List (List UInt8)) : Prop :=
  ∀ line ∈ lines, line ≠ [] ∧ line.length < 80 ∧ newline ∉ line

section Lines

variable {mem : Bytes} {lines : List (List UInt8)} {start s : Terminal}
  {calls : List (Call × List UInt8)}

theorem Short.fits (short : Short lines) : ∀ line ∈ lines, Sheet.Fits sheet line := by
  intro line member
  obtain ⟨_, short, ordinary⟩ := short line member
  refine ⟨short, fun c inside => not_breaks_iff.mpr ?_⟩
  rintro rfl
  exact ordinary inside

theorem Short.length_le (short : Short lines) :
    (Sheet.unlines newline lines).length ≤ lines.length * 80 :=
  Sheet.length_unlines_le short.fits

/-- Lines stay below the kernel when each ends below it in its row. -/
theorem staysBelow_iff (short : Short lines) :
    StaysBelow (Sheet.unlines newline lines) ↔
      ∀ row line, lines[row]? = some line → row * 80 + line.length ≤ cellsBelowKernel := by
  rw [StaysBelow, Sheet.placed,
    Sheet.forall_placed_unlines (breaks_iff.mpr rfl) short.fits 0 cellsBelowKernel]
  constructor
  · intro reach row line found
    have within := reach row line found (short line (List.mem_of_getElem? found)).1
    rwa [Nat.zero_add] at within
  · intro reach row line found _
    rw [Nat.zero_add]
    exact reach row line found

/-- As every line has something on it, few of them stay below the kernel. -/
theorem length_le_of_below (short : Short lines)
    (below : ∀ row line, lines[row]? = some line → row * 80 + line.length ≤ cellsBelowKernel) :
    lines.length ≤ 1844 := by
  rcases List.eq_nil_or_concat lines with rfl | ⟨others, last, rfl⟩
  · simp
  · rw [List.concat_eq_append] at below short ⊢
    have reach := below others.length last (by simp)
    have nonempty := List.length_pos_of_ne_nil (short last (by simp)).1
    rw [cellsBelowKernel_eq] at reach
    rw [List.length_append, List.length_singleton]
    omega

theorem Short.snoc {last : List UInt8} (short : Short (lines ++ [last])) :
    Short lines ∧ last ≠ [] ∧ last.length < 80 ∧ newline ∉ last :=
  ⟨fun line member => short line (List.mem_append_left _ member), short last (by simp)⟩

/-- The first character of a row that goes to the kernel. -/
theorem escapes_in_row (short : Short lines)
    (below : ∀ row line, lines[row]? = some line → row * 80 + line.length ≤ cellsBelowKernel)
    {left : List UInt8} {c : UInt8} (fits : Sheet.Fits sheet left) (ordinary : c ≠ newline)
    (reach : left ≠ [] → lines.length * 80 + left.length ≤ cellsBelowKernel)
    (far : cellsBelowKernel ≤ lines.length * 80 + left.length) :
    Escapes (Sheet.unlines newline lines ++ left) c := by
  have isBreak : sheet.breaks newline = true := breaks_iff.mpr rfl
  have few := length_le_of_below short below
  have textLength := short.length_le
  have rowLength : left.length < 80 := fits.short
  have room : 0 + left.length < sheet.width := by
    rw [Nat.zero_add]
    exact fits.short
  have rows : sheet.cursorFrom ⟨0, 0⟩ (Sheet.unlines newline lines) = ⟨lines.length, 0⟩ := by
    rw [Sheet.cursorFrom_unlines isBreak short.fits, Nat.zero_add]
  have cursor : sheet.cursor (Sheet.unlines newline lines ++ left) =
      ⟨lines.length, left.length⟩ := by
    rw [Sheet.cursor, Sheet.cursorFrom_append, rows, Sheet.cursorFrom_line fits.ordinary room,
      Nat.zero_add]
  have number : sheet.index ⟨lines.length, left.length⟩ = lines.length * 80 + left.length := rfl
  constructor
  · exact ordinary
  · rw [List.length_append]
    omega
  · rw [StaysBelow, Sheet.placed, Sheet.placedFrom_append, List.forall_mem_append, rows,
      Sheet.placedFrom_line fits.ordinary room, Sheet.forall_zipIdx_lt]
    exact ⟨(staysBelow_iff short).mpr below, reach⟩
  · rw [cursor, number]
    exact far
  · rw [cursor, number]
    omega

/-- If a line does not stay below the kernel, the text has a first character that goes
there. -/
theorem exists_escape (short : Short lines)
    (far : ∃ row line, lines[row]? = some line ∧ cellsBelowKernel < row * 80 + line.length) :
    ∃ before c rest, Sheet.unlines newline lines = before ++ c :: rest ∧ Escapes before c := by
  induction lines using List.reverseRecOn with
  | nil =>
      obtain ⟨row, line, found, _⟩ := far
      cases found
  | append_singleton lines last ih =>
      obtain ⟨short, nonempty, fits, ordinary⟩ := short.snoc
      have grown : Sheet.unlines newline (lines ++ [last]) =
          Sheet.unlines newline lines ++ (last ++ [newline]) := by
        simp [Sheet.unlines]
      by_cases early : ∃ row line, lines[row]? = some line ∧
          cellsBelowKernel < row * 80 + line.length
      · obtain ⟨before, c, rest, shape, escapes⟩ := ih short early
        refine ⟨before, c, rest ++ (last ++ [newline]), ?_, escapes⟩
        rw [grown, shape, List.append_assoc, List.cons_append]
      · have below : ∀ row line, lines[row]? = some line →
            row * 80 + line.length ≤ cellsBelowKernel := fun row line found =>
          Nat.le_of_not_lt fun beyond => early ⟨row, line, found, beyond⟩
        have reach : cellsBelowKernel < lines.length * 80 + last.length := by
          obtain ⟨row, line, found, beyond⟩ := far
          rw [List.getElem?_append] at found
          split at found
          · exact absurd ⟨row, line, found, beyond⟩ early
          · obtain ⟨inside, rfl⟩ := List.getElem?_eq_some_iff.mp found
            have isLast : row = lines.length := by
              simp at inside
              omega
            simpa [isLast] using beyond
        -- the column of the last row that lies at the kernel
        obtain ⟨column, isColumn⟩ : ∃ column, column = cellsBelowKernel - lines.length * 80 :=
          ⟨_, rfl⟩
        have positive := List.length_pos_of_ne_nil nonempty
        have inside : column < last.length := by omega
        have parts : last.take column ++ last[column] :: last.drop (column + 1) = last := by
          rw [List.cons_getElem_drop_succ, List.take_append_drop]
        have length : (last.take column).length = column :=
          List.length_take_of_le (Nat.le_of_lt inside)
        have leftFits : Sheet.Fits sheet (last.take column) := by
          refine ⟨?_, fun c member => not_breaks_iff.mpr ?_⟩
          · rw [length]
            exact inside.trans fits
          · rintro rfl
            exact ordinary (List.mem_of_mem_take member)
        refine ⟨Sheet.unlines newline lines ++ last.take column, last[column],
          last.drop (column + 1) ++ [newline], ?_, ?_⟩
        · rw [grown, List.append_assoc, ← List.cons_append, ← List.append_assoc (last.take column),
            parts]
        · refine escapes_in_row short below leftFits ?_ ?_ ?_
          · exact fun isNewline => ordinary (isNewline ▸ List.getElem_mem inside)
          · intro some
            have positive := List.length_pos_of_ne_nil some
            omega
          · omega

/-- Printed one below the other, lines with something on them reach the kernel exactly
when one of them ends above 1 MiB in its row. -/
theorem lines_reach_kernel_iff (started : initTerminal (Terminal.boot mem) = .ok () start)
    (given : ∀ call ∈ calls, call.1.Gives mem call.2)
    (text : calls.flatMap Prod.snd = Sheet.unlines newline lines) (short : Short lines)
    (returned : printAll (calls.map Prod.fst) start = .ok () s) :
    ReachedKernel s ↔
      ∃ row line, lines[row]? = some line ∧ cellsBelowKernel < row * 80 + line.length := by
  constructor
  · intro reached
    by_contra safe
    have below : ∀ row line, lines[row]? = some line →
        row * 80 + line.length ≤ cellsBelowKernel := fun row line found =>
      Nat.le_of_not_lt fun beyond => safe ⟨row, line, found, beyond⟩
    have few := length_le_of_below short below
    have length := short.length_le
    have stays := (staysBelow_iff short).mpr below
    obtain ⟨s', returned', placed⟩ := (initTerminal_placed started).calls given
      (by rw [text, List.length_nil]; omega) (by rwa [text])
    rw [List.nil_append] at placed
    cases returned'.symm.trans returned
    obtain ⟨index, member, far⟩ := reached
    rw [placed.stored, List.mem_map] at member
    obtain ⟨entry, stored, rfl⟩ := member
    rw [text] at stored
    have near := stays entry stored
    rw [cellsBelowKernel_eq] at near far
    rw [UInt32.toNat_ofNat_of_lt' (by simp [UInt32.size]; omega)] at far
    omega
  · intro far
    obtain ⟨before, c, rest, shape, escapes⟩ := exists_escape short far
    exact (initTerminal_placed started).calls_escape given (text.trans shape) escapes returned

/-- The message of `timer_callback`, without its newline. -/
def secondMessage : List UInt8 := "One second has passed...: ".toList.map Char.toUInt8

/-- A text printed character by character. -/
def byPutchar (text : List UInt8) : List (Call × List UInt8) :=
  text.map fun c => (Call.putchar c, [c])

theorem byPutchar_gives (mem : Bytes) (text : List UInt8) :
    ∀ call ∈ byPutchar text, call.1.Gives mem call.2 := by
  intro call member
  obtain ⟨c, _, rfl⟩ := List.mem_map.mp member
  rfl

theorem byPutchar_text (text : List UInt8) : (byPutchar text).flatMap Prod.snd = text := by
  simp [byPutchar, List.flatMap_map]

theorem byPutchar_returns (text : List UInt8) (s : Terminal) :
    ∃ after, printAll ((byPutchar text).map Prod.fst) s = .ok () after := by
  induction text generalizing s with
  | nil => exact ⟨s, rfl⟩
  | cons c rest ih =>
      obtain ⟨middle, printed⟩ := terminalPutchar_returns s c
      obtain ⟨after, runs⟩ := ih middle
      exact ⟨after, (bind_of_ok printed).trans runs⟩

/-- With one message a second, the kernel is reached after half an hour. -/
theorem lines_reach_kernel_iff_messages :
    ∃ start s, initTerminal (Terminal.boot fun _ => 0) = .ok () start ∧
      printAll ((byPutchar (Sheet.unlines newline (List.replicate 1844 secondMessage))).map
        Prod.fst) start = .ok () s ∧ ReachedKernel s := by
  obtain ⟨start, started, _⟩ := initTerminal_run fun _ => 0
  have short : Short (List.replicate 1844 secondMessage) := by
    intro line member
    rw [List.eq_of_mem_replicate member]
    decide
  have far : ∃ row line, (List.replicate 1844 secondMessage)[row]? = some line ∧
      cellsBelowKernel < row * 80 + line.length := by
    refine ⟨1843, secondMessage, ?_, by decide⟩
    rw [List.getElem?_replicate, if_pos (by decide)]
  generalize List.replicate 1844 secondMessage = lines at short far
  obtain ⟨s, returned⟩ := byPutchar_returns (Sheet.unlines newline lines) start
  exact ⟨start, s, started, returned, (lines_reach_kernel_iff started (byPutchar_gives _ _)
    (byPutchar_text _) short returned).mpr far⟩

/-- Until then every row of memory from the screen on shows the line of its number, the
first 25 of them on the screen for good, and nothing else changes. -/
theorem lines_shown (started : initTerminal (Terminal.boot mem) = .ok () start)
    (given : ∀ call ∈ calls, call.1.Gives mem call.2)
    (text : calls.flatMap Prod.snd = Sheet.unlines newline lines) (short : Short lines)
    (below : ∀ row line, lines[row]? = some line → row * 80 + line.length ≤ cellsBelowKernel) :
    ∃ s, printAll (calls.map Prod.fst) start = .ok () s ∧
      (∀ row column, column < 80 → row * 80 + column < cellsBelowKernel →
        s.mem.read (cellAt (row * 80 + column)) 2 =
          match lines[row]?.bind (·[column]?) with
          | some c => [c, 7]
          | none => if row < 25 then [0x20, 7] else mem.read (cellAt (row * 80 + column)) 2) ∧
      ∀ address ∉ belowKernel, s.mem address = mem address := by
  have few := length_le_of_below short below
  have length := short.length_le
  obtain ⟨s, returned, placed⟩ := (initTerminal_placed started).calls given
    (by rw [text, List.length_nil]; omega) (by rw [text]; exact (staysBelow_iff short).mpr below)
  rw [List.nil_append] at placed
  refine ⟨s, returned, fun row column inside reach => ?_, placed.outside⟩
  have shows : sheet.shown (Sheet.unlines newline lines) (row * 80 + column) =
      lines[row]?.bind (·[column]?) :=
    Sheet.shown_unlines (breaks_iff.mpr rfl) short.fits row inside
  have onScreen : row * 80 + column < 2000 ↔ row < 25 := by omega
  rw [placed.cells _ reach, cellBytes, text, shows]
  simp only [onScreen]

/-- The last message before that, in the last row below the kernel. -/
theorem lines_shown_messages :
    ∃ start s, initTerminal (Terminal.boot fun _ => 0) = .ok () start ∧
      printAll ((byPutchar (Sheet.unlines newline (List.replicate 1843 secondMessage))).map
        Prod.fst) start = .ok () s ∧
      s.mem.read (cellAt (1842 * 80)) 2 = ['O'.toUInt8, 7] ∧
      ∀ address ∉ belowKernel, s.mem address = 0 := by
  obtain ⟨start, started, _⟩ := initTerminal_run fun _ => 0
  have short : Short (List.replicate 1843 secondMessage) := by
    intro line member
    rw [List.eq_of_mem_replicate member]
    decide
  have below : ∀ row line, (List.replicate 1843 secondMessage)[row]? = some line →
      row * 80 + line.length ≤ cellsBelowKernel := by
    intro row line found
    obtain ⟨inside, rfl⟩ := List.getElem?_eq_some_iff.mp found
    rw [List.length_replicate] at inside
    have length : secondMessage.length = 26 := rfl
    rw [List.getElem_replicate, length, cellsBelowKernel_eq]
    omega
  have last : (List.replicate 1843 secondMessage)[1842]? = some secondMessage := by
    rw [List.getElem?_replicate, if_pos (by decide)]
  generalize List.replicate 1843 secondMessage = lines at short below last
  obtain ⟨s, returned, cells, outside⟩ :=
    lines_shown started (byPutchar_gives _ _) (byPutchar_text _) short below
  have shown := cells 1842 0 (by decide) (by rw [cellsBelowKernel_eq]; decide)
  rw [last] at shown
  exact ⟨start, s, started, returned, shown, outside⟩

end Lines

end TorchOS.Tty
