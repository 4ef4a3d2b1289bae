import TorchOS.Terminal
import TorchOS.Lib.Memory
import TorchOS.Base.Word

/-!
# What the terminal shows

After `init_terminal` every cell of the screen is blank. Text without newlines then
fills it from the first cell on, line by line, and from the last cell it goes on at
the first: a cell shows the last character of those that came to it.
-/

namespace TorchOS.Tty

open Base Base.Program

/-- The video memory of the screen: 2000 cells of two bytes. -/
def screen : Set UInt32 := Span vgaMemory 4000

/-- The address of a cell. -/
def cellAt (cell : Nat) : UInt32 := vgaMemory + UInt32.ofNat (2 * cell)

/-- The character of a cell after a text: the last one whose index is the cell's
number modulo 2000, or a blank if there is none. -/
def shown (text : List UInt8) (cell : Nat) : UInt8 :=
  ((text.zipIdx.filter fun entry => entry.2 % 2000 = cell).getLast?.map Prod.fst).getD 0x20

theorem shown_snoc (text : List UInt8) (c : UInt8) (cell : Nat) :
    shown (text ++ [c]) cell = if text.length % 2000 = cell then c else shown text cell := by
  by_cases here : text.length % 2000 = cell
  · simp [shown, List.zipIdx_append, here]
  · simp [shown, List.zipIdx_append, here]

/-- What a call prints, if the data it is given does not lie on the screen. -/
def Call.Prints (mem : Bytes) : Call → List UInt8 → Prop
  | .putchar c, bytes => bytes = [c]
  | .write data size, bytes =>
      bytes = mem.read data size.toNat ∧ Disjoint (Span data size.toNat) screen
  | .print data, bytes =>
      Lib.CString mem data bytes ∧ Disjoint (Span data (bytes.length + 1)) screen

/-- One call after another. -/
def printAll : List Call → Code Unit
  | [] => pure ()
  | call :: rest => do
      call.run
      printAll rest

/-- The screen after a text: the cursor at the cell after the last one, every cell as
the text left it, and the rest of memory as it was. -/
structure Shows (mem : Bytes) (text : List UInt8) (s : Terminal) : Prop where
  ptr : s.terminalPtr = vgaMemory
  color : s.terminalColor = 7
  row : s.terminalRow < vgaHeight
  column : s.terminalColumn < vgaWidth
  cursor : s.terminalRow.toNat * 80 + s.terminalColumn.toNat = text.length % 2000
  cells : ∀ cell < 2000, s.mem.read (cellAt cell) 2 = [shown text cell, 7]
  outside : ∀ address ∉ screen, s.mem address = mem address

/-! ## One cell -/

/-- The two bytes of a cell in light grey. -/
theorem vgaChar_bytes (c : UInt8) :
    [(vgaChar 7 c).toUInt8, (vgaChar 7 c >>> 8).toUInt8] = [c, 7] := by
  have small := c.toNat_lt
  have joined : (vgaChar 7 c).toNat = 7 * 256 + c.toNat := by
    have or_eq := Nat.two_pow_add_eq_or_of_lt (i := 8) small 7
    have color : ((7 : UInt8).toUInt16 <<< 8).toNat = 2 ^ 8 * 7 := rfl
    rw [vgaChar, UInt16.toNat_or, color, Nat.or_comm, UInt8.toNat_toUInt16, ← or_eq]
  have low : (vgaChar 7 c).toUInt8 = c := by
    rw [← UInt8.toNat_inj, UInt16.toNat_toUInt8, joined]
    omega
  have high : (vgaChar 7 c >>> 8).toUInt8 = 7 := by
    have eight : (8 : UInt16).toNat % 16 = 8 := rfl
    have seven : (7 : UInt8).toNat = 7 := rfl
    rw [← UInt8.toNat_inj, UInt16.toNat_toUInt8, UInt16.toNat_shiftRight, eight,
      Nat.shiftRight_eq_div_pow, joined, seven]
    omega
  rw [low, high]

theorem toNat_cellAt {cell : Nat} (inside : cell < 2000) :
    (cellAt cell).toNat = 0xb8000 + 2 * cell := by
  have base : vgaMemory.toNat = 0xb8000 := rfl
  rw [cellAt, UInt32.toNat_add, UInt32.toNat_ofNat', base]
  omega

theorem cell_subset {cell : Nat} (inside : cell < 2000) : Span (cellAt cell) 2 ⊆ screen := by
  apply Span.shift_subset
  rw [UInt32.toNat_ofNat']
  omega

theorem cell_disjoint {cell other : Nat} (inside : cell < 2000) (otherInside : other < 2000)
    (apart : other ≠ cell) : Disjoint (Span (cellAt other) 2) (Span (cellAt cell) 2) := by
  rcases Nat.lt_or_gt_of_ne apart with below | above
  · apply Span.disjoint_of_le
    · rw [toNat_cellAt inside, toNat_cellAt otherInside]
      omega
    · rw [toNat_cellAt inside]
      omega
  · apply Disjoint.symm
    apply Span.disjoint_of_le
    · rw [toNat_cellAt inside, toNat_cellAt otherInside]
      omega
    · rw [toNat_cellAt otherInside]
      omega

section SetCell

variable {s : Terminal} {cell other : Nat} {c : UInt8}

/-- A store to a cell in light grey. -/
theorem setCell_mem (ptr : s.terminalPtr = vgaMemory) :
    (s.setCell (UInt32.ofNat cell) (vgaChar 7 c)).mem = s.mem.write (cellAt cell) [c, 7] := by
  have address : s.terminalPtr + 2 * UInt32.ofNat cell = cellAt cell := by
    rw [ptr, cellAt, UInt32.ofNat_mul]
    rfl
  rw [Terminal.setCell, address, ← vgaChar_bytes c]

theorem setCell_read (ptr : s.terminalPtr = vgaMemory) (inside : cell < 2000)
    (otherInside : other < 2000) :
    (s.setCell (UInt32.ofNat cell) (vgaChar 7 c)).mem.read (cellAt other) 2 =
      if cell = other then [c, 7] else s.mem.read (cellAt other) 2 := by
  rw [setCell_mem ptr]
  by_cases here : cell = other
  · subst other
    rw [if_pos rfl]
    exact Bytes.read_write_same (by simp)
  · rw [if_neg here]
    exact Bytes.read_write_of_disjoint (cell_disjoint inside otherInside (Ne.symm here))

theorem setCell_outside (ptr : s.terminalPtr = vgaMemory) (inside : cell < 2000)
    {address : UInt32} (outside : address ∉ screen) :
    (s.setCell (UInt32.ofNat cell) (vgaChar 7 c)).mem address = s.mem address := by
  rw [setCell_mem ptr]
  exact Bytes.write_of_notMem fun member => outside (cell_subset inside member)

end SetCell

/-! ## The blank screen -/

/-- The screen while `init_terminal` clears it: the first `count` cells are blank. -/
structure Cleared (mem : Bytes) (count : Nat) (s : Terminal) : Prop where
  ptr : s.terminalPtr = vgaMemory
  color : s.terminalColor = 7
  row : s.terminalRow = 0
  column : s.terminalColumn = 0
  blank : ∀ cell < count, s.mem.read (cellAt cell) 2 = [0x20, 7]
  outside : ∀ address ∉ screen, s.mem address = mem address

theorem Cleared.next {mem : Bytes} {count : Nat} {s : Terminal} (cleared : Cleared mem count s)
    (inside : count < 2000) :
    Cleared mem (count + 1)
      (s.setCell (UInt32.ofNat count) (vgaChar s.terminalColor 0x20)) := by
  obtain ⟨ptr, color, row, column, blank, outside⟩ := cleared
  rw [color]
  refine ⟨ptr, color, row, column, fun cell below => ?_, fun address away => ?_⟩
  · rw [setCell_read ptr inside (by omega)]
    by_cases here : count = cell
    · rw [if_pos here]
    · rw [if_neg here, blank cell (by omega)]
  · rw [setCell_outside ptr inside away, outside address away]

theorem clearScreen_cleared {mem : Bytes} {s : Terminal} (cleared : Cleared mem 0 s) :
    Yields (clearScreen vgaWidth.toNat vgaHeight.toNat s)
      (fun _ after => Cleared mem 2000 after) (fun _ : Halt => False) := by
  have filled : vgaHeight.toNat * 80 = 2000 := rfl
  unfold clearScreen
  rw [← filled]
  refine Yields.times (I := fun y after => Cleared mem (y * 80) after) ?_ ?_
  · rwa [Nat.zero_mul]
  intro y line lineInside cleared
  have lines : y < 25 := lineInside
  have whole : (y + 1) * 80 = y * 80 + vgaWidth.toNat := Nat.succ_mul y 80
  rw [whole]
  apply Yields.times (I := fun x after => Cleared mem (y * 80 + x) after) cleared
  intro x cell cellInside cleared
  have columns : x < 80 := cellInside
  have index : UInt32.ofNat y * vgaWidth + UInt32.ofNat x = UInt32.ofNat (y * 80 + x) := by
    rw [UInt32.ofNat_add, UInt32.ofNat_mul]
    rfl
  rw [update_run, index]
  exact cleared.next (by omega)

/-- `init_terminal` leaves a blank screen. -/
theorem initTerminal_shows {mem : Bytes} {start : Terminal}
    (started : initTerminal (Terminal.boot mem) = .ok () start) : Shows mem [] start := by
  rw [initTerminal, bind_of_ok (update_run _ _)] at started
  have homed : Cleared mem 0 (Terminal.boot mem).homed :=
    ⟨rfl, rfl, rfl, rfl, fun _ below => absurd below (Nat.not_lt_zero _), fun _ _ => rfl⟩
  obtain ⟨ptr, color, row, column, blank, outside⟩ := (clearScreen_cleared homed).of_ok started
  refine ⟨ptr, color, ?_, ?_, ?_, blank, outside⟩
  · rw [row]
    decide
  · rw [column]
    decide
  · rw [row, column]
    rfl

/-! ## Printing -/

section Printing

variable {mem : Bytes} {text bytes : List UInt8} {s : Terminal} {c : UInt8}

/-- The cursor's cell as `terminal_put_at` computes it. -/
theorem Shows.cell (shows : Shows mem text s) :
    s.terminalRow * vgaWidth + s.terminalColumn = UInt32.ofNat (text.length % 2000) := by
  rw [← shows.cursor, UInt32.ofNat_add, UInt32.ofNat_mul, UInt32.ofNat_toNat, UInt32.ofNat_toNat]
  rfl

/-- Counting one on in a row or a column. -/
theorem toNat_succ {index bound : UInt32} (below : index < bound) :
    (index + 1).toNat = index.toNat + 1 := by
  have one : (1 : UInt32).toNat = 1 := rfl
  have wide := bound.toNat_lt
  rw [UInt32.lt_iff_toNat_lt] at below
  rw [UInt32.toNat_add, one]
  omega

/-- An ordinary character goes to the cell of the cursor, which moves to the next. -/
theorem Shows.putchar (shows : Shows mem text s) (printable : c ≠ newline) :
    ∃ after, terminalPutchar c s = .ok () after ∧ Shows mem (text ++ [c]) after := by
  have small : text.length % 2000 < 2000 := Nat.mod_lt _ (by decide)
  have length : (text ++ [c]).length = text.length + 1 := by simp
  have nextColumn := toNat_succ shows.column
  have nextRow := toNat_succ shows.row
  have cursor := shows.cursor
  have ptr : s.terminalPtr = vgaMemory := shows.ptr
  have printed : (s.printed c).mem =
      (s.setCell (UInt32.ofNat (text.length % 2000)) (vgaChar 7 c)).mem := by
    rw [← shows.cell, ← shows.color]
    rfl
  have cells : ∀ cell < 2000,
      (s.printed c).mem.read (cellAt cell) 2 = [shown (text ++ [c]) cell, 7] := by
    intro cell inside
    rw [printed, setCell_read ptr small inside, shown_snoc, shows.cells cell inside]
    split <;> rfl
  have outside : ∀ address ∉ screen, (s.printed c).mem address = mem address := by
    intro address away
    rw [printed, setCell_outside ptr small away, shows.outside address away]
  rw [terminalPutchar_other s printable, advanceCursor, update_run]
  refine ⟨_, rfl, ?_⟩
  have row : s.terminalRow.toNat < 25 := UInt32.lt_iff_toNat_lt.mp shows.row
  have column : s.terminalColumn.toNat < 80 := UInt32.lt_iff_toNat_lt.mp shows.column
  have sameRow : (s.printed c).terminalRow = s.terminalRow := rfl
  have sameColumn : (s.printed c).terminalColumn = s.terminalColumn := rfl
  have width : vgaWidth.toNat = 80 := rfl
  have height : vgaHeight.toNat = 25 := rfl
  have top : (0 : UInt32) < vgaHeight := by decide
  have left : (0 : UInt32) < vgaWidth := by decide
  rw [sameRow, sameColumn]
  by_cases full : s.terminalColumn + 1 = vgaWidth
  · rw [if_pos full]
    have lastColumn : s.terminalColumn.toNat = 79 := by
      rw [full, width] at nextColumn
      omega
    by_cases last : s.terminalRow + 1 = vgaHeight
    · have lastRow : s.terminalRow.toNat = 24 := by
        rw [last, height] at nextRow
        omega
      rw [if_pos last]
      refine ⟨ptr, shows.color, top, left, ?_, cells, outside⟩
      rw [length]
      change 0 = _
      omega
    · rw [if_neg last]
      refine ⟨ptr, shows.color, succ_lt shows.row last, left, ?_, cells, outside⟩
      rw [length]
      change (s.terminalRow + 1).toNat * 80 + 0 = _
      have notLast := UInt32.lt_iff_toNat_lt.mp (succ_lt shows.row last)
      omega
  · rw [if_neg full]
    refine ⟨ptr, shows.color, shows.row, succ_lt shows.column full, ?_, cells, outside⟩
    rw [length]
    change s.terminalRow.toNat * 80 + (s.terminalColumn + 1).toNat = _
    have notLast := UInt32.lt_iff_toNat_lt.mp (succ_lt shows.column full)
    omega

/-- The loop of `terminal_write` prints the data byte by byte. -/
theorem Shows.writes (shows : Shows mem text s) {data : UInt32} {count : Nat}
    (apart : Disjoint (Span data count) screen) (printable : newline ∉ mem.read data count) :
    ∃ after,
      times (fun i => do
        let c ← read fun s => s.mem (data + UInt32.ofNat i)
        terminalPutchar c) count s = .ok () after ∧
        Shows mem (text ++ mem.read data count) after := by
  induction count with
  | zero =>
      refine ⟨s, rfl, ?_⟩
      simpa [Bytes.read] using shows
  | succ count ih =>
      have last : mem.read data (count + 1) =
          mem.read data count ++ [mem (data + UInt32.ofNat count)] := by
        rw [Bytes.read_add]
        simp [Bytes.read]
      rw [last, List.mem_append, not_or] at printable
      have shorter : Span data count ⊆ Span data (count + 1) := Span.mono (by omega)
      obtain ⟨middle, run, before⟩ := ih (apart.mono_left shorter) printable.1
      have inside : data + UInt32.ofNat count ∈ Span data (count + 1) :=
        Span.add_ofNat_mem (by omega)
      have same := before.outside _ (Set.disjoint_left.mp apart inside)
      have ordinary : mem (data + UInt32.ofNat count) ≠ newline := fun isNewline =>
        printable.2 (by simp [isNewline])
      obtain ⟨after, printed, shown⟩ := before.putchar ordinary
      refine ⟨after, ?_, ?_⟩
      · refine (bind_of_ok run).trans ((bind_of_ok (read_run _ _)).trans ?_)
        rw [same, printed]
      · rwa [last, ← List.append_assoc]

theorem strlen_run {data : UInt32} (string : Lib.CString s.mem data text) :
    strlen data s = .ok (UInt32.ofNat text.length) s :=
  Lib.strlenIn_run string

/-- A call prints what it is given. -/
theorem Shows.call (shows : Shows mem text s) {call : Call} (given : call.Prints mem bytes)
    (printable : newline ∉ bytes) :
    ∃ after, call.run s = .ok () after ∧ Shows mem (text ++ bytes) after := by
  cases call with
  | putchar c =>
      obtain rfl : bytes = [c] := given
      exact shows.putchar fun isNewline => printable (by simp [isNewline])
  | write data size =>
      obtain ⟨rfl, apart⟩ := given
      exact shows.writes apart printable
  | print data =>
      obtain ⟨string, apart⟩ := given
      have kept : Lib.CString s.mem data bytes :=
        string.congr fun address inside =>
          shows.outside address (Set.disjoint_left.mp apart inside)
      have short := string.length_lt
      have shorter : Span data bytes.length ⊆ Span data (bytes.length + 1) :=
        Span.mono (by omega)
      have same : mem.read data bytes.length = bytes := string.read
      have count : (UInt32.ofNat bytes.length).toNat = bytes.length :=
        UInt32.toNat_ofNat_of_lt' short
      obtain ⟨after, run, shown⟩ :=
        shows.writes (apart.mono_left shorter) (by rwa [same])
      rw [same] at shown
      refine ⟨after, ?_, shown⟩
      refine (bind_of_ok (strlen_run kept)).trans ?_
      rw [terminalWrite, count]
      exact run

theorem Shows.calls {calls : List (Call × List UInt8)} (shows : Shows mem text s)
    (given : ∀ call ∈ calls, call.1.Prints mem call.2)
    (printable : newline ∉ calls.flatMap Prod.snd) :
    ∃ after, printAll (calls.map Prod.fst) s = .ok () after ∧
      Shows mem (text ++ calls.flatMap Prod.snd) after := by
  induction calls generalizing text s with
  | nil => exact ⟨s, rfl, by simpa using shows⟩
  | cons call rest ih =>
      rw [List.flatMap_cons, List.mem_append, not_or] at printable
      obtain ⟨middle, run, before⟩ :=
        shows.call (given call List.mem_cons_self) printable.1
      obtain ⟨after, runs, shown⟩ :=
        ih before (fun later member => given later (List.mem_cons_of_mem _ member)) printable.2
      refine ⟨after, (bind_of_ok run).trans runs, ?_⟩
      rwa [List.flatMap_cons, ← List.append_assoc]

/-- After any text without newlines, however it is divided among calls, the cursor is at
the cell after the last character and every cell shows the last character that came to
it, in light grey. -/
theorem text_shown {start : Terminal} {calls : List (Call × List UInt8)}
    (started : initTerminal (Terminal.boot mem) = .ok () start)
    (given : ∀ call ∈ calls, call.1.Prints mem call.2)
    (printable : newline ∉ calls.flatMap Prod.snd) :
    ∃ s, printAll (calls.map Prod.fst) start = .ok () s ∧
      s.terminalRow.toNat * 80 + s.terminalColumn.toNat =
        (calls.flatMap Prod.snd).length % 2000 ∧
      s.terminalRow < vgaHeight ∧ s.terminalColumn < vgaWidth ∧
      ∀ cell < 2000,
        s.mem.read (cellAt cell) 2 = [shown (calls.flatMap Prod.snd) cell, 7] := by
  obtain ⟨s, run, shows⟩ := (initTerminal_shows started).calls given printable
  exact ⟨s, run, shows.cursor, shows.row, shows.column, shows.cells⟩

/-- Memory with the text `i` at 0x1000. -/
def hiMemory : Bytes := fun address => if address = 0x1000 then 105 else 0

theorem text_shown_hi :
    ∃ start s, initTerminal (Terminal.boot hiMemory) = .ok () start ∧
      printAll [.putchar 72, .print 0x1000] start = .ok () s ∧
      s.terminalRow.toNat * 80 + s.terminalColumn.toNat = 2 ∧
      s.mem.read (cellAt 0) 2 = [72, 7] ∧ s.mem.read (cellAt 1) 2 = [105, 7] ∧
      s.mem.read (cellAt 2) 2 = [0x20, 7] := by
  obtain ⟨start, started, _⟩ := initTerminal_run hiMemory
  have apart : Disjoint (Span 0x1000 2) screen := Span.disjoint_of_le (by decide) (by decide)
  have given : ∀ call ∈ [(Call.putchar 72, [72]), (Call.print 0x1000, [105])],
      call.1.Prints hiMemory call.2 := by
    simp only [List.forall_mem_cons, List.not_mem_nil, false_implies, implies_true, and_true]
    exact ⟨rfl, ⟨by decide, by decide⟩, apart⟩
  obtain ⟨s, run, cursor, _, _, cells⟩ := text_shown started given (by decide)
  exact ⟨start, s, started, run, cursor, cells 0 (by decide), cells 1 (by decide),
    cells 2 (by decide)⟩

end Printing

end TorchOS.Tty
