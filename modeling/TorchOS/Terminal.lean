import TorchOS.Lib.Strings
import TorchOS.Base.Run

/-!
# The terminal of `tty.c`

A cursor over a screen of 80 by 25 cells in video memory. `terminal_putchar` is the
only function that moves it, `terminal_write` and `terminal_print` call it for one
byte after another.
-/

namespace TorchOS.Tty

open Base Base.Program

/-- `VGA_WIDTH` -/
def vgaWidth : UInt32 := 80

/-- `VGA_HEIGHT` -/
def vgaHeight : UInt32 := 25

/-- The newline character. -/
def newline : UInt8 := 10

/-- A character passed to `terminal_putchar`, and where the cursor was. -/
structure Typed where
  character : UInt8
  row : UInt32
  column : UInt32
  deriving DecidableEq

/-- Memory and the globals of `tty.c`. `typed` is the history of `terminal_putchar`
and `cells` that of `terminal_put_at`: the index of every cell it stored to. -/
structure Terminal where
  mem : Bytes
  terminalRow : UInt32
  terminalColumn : UInt32
  terminalColor : UInt8
  terminalPtr : UInt32
  typed : List Typed
  cells : List UInt32

/-- Code of `tty.c`. -/
abbrev Code := Program Halt Terminal

/-- `vga_char` -/
def vgaChar (color character : UInt8) : UInt16 := character.toUInt16 ||| (color.toUInt16 <<< 8)

/-- A store of two bytes at `terminal_ptr[index]`. -/
def Terminal.setCell (s : Terminal) (index : UInt32) (value : UInt16) : Terminal :=
  { s with
    mem := s.mem.write (s.terminalPtr + 2 * index) [value.toUInt8, (value >>> 8).toUInt8] }

/-- The loops of `init_terminal` that fill the screen with spaces. Kept folded, so
that no proof clears the screen cell by cell. -/
@[irreducible] def clearScreen (width height : Nat) : Code Unit :=
  times (fun y => times (fun x =>
    update fun s => s.setCell (UInt32.ofNat y * vgaWidth + UInt32.ofNat x)
      (vgaChar s.terminalColor 0x20)) width) height

/-- The globals as `init_terminal` sets them: the cursor at the top left, light grey. -/
def Terminal.homed (s : Terminal) : Terminal :=
  { s with
    terminalRow := 0
    terminalColumn := 0
    terminalColor := 7
    terminalPtr := vgaMemory }

/-- `init_terminal` -/
def initTerminal : Code Unit := do
  update Terminal.homed
  clearScreen vgaWidth.toNat vgaHeight.toNat

/-- `terminal_put_at` -/
def terminalPutAt (c : UInt8) (x y : UInt32) : Code Unit :=
  update fun s =>
    { s.setCell (y * vgaWidth + x) (vgaChar s.terminalColor c) with
      cells := s.cells ++ [y * vgaWidth + x] }

/-- The end of `terminal_putchar`: one column on, and from the last column to the
next line, and from the last line to the first. -/
def advanceCursor : Code Unit :=
  update fun s =>
    if s.terminalColumn + 1 = vgaWidth then
      { s with
        terminalColumn := 0
        terminalRow := if s.terminalRow + 1 = vgaHeight then 0 else s.terminalRow + 1 }
    else { s with terminalColumn := s.terminalColumn + 1 }

/-- `terminal_putchar` -/
def terminalPutchar (c : UInt8) : Code Unit := do
  update fun s => { s with typed := s.typed ++ [⟨c, s.terminalRow, s.terminalColumn⟩] }
  if c = newline then
    update fun s => { s with terminalRow := s.terminalRow + 1, terminalColumn := 0 }
  else
    let x ← read Terminal.terminalColumn
    let y ← read Terminal.terminalRow
    terminalPutAt c x y
    advanceCursor

/-- `terminal_write` -/
def terminalWrite (data size : UInt32) : Code Unit :=
  times (fun i => do
    let c ← read fun s => s.mem (data + UInt32.ofNat i)
    terminalPutchar c) size.toNat

/-- `strlen` -/
def strlen (str : UInt32) : Code UInt32 := Lib.strlenIn Terminal.mem str

/-- `terminal_print` -/
def terminalPrint (data : UInt32) : Code Unit := do
  let size ← strlen data
  terminalWrite data size

/-! ## Runs -/

/-- A call of one of the three functions that print. -/
inductive Call where
  | putchar (c : UInt8)
  | write (data size : UInt32)
  | print (data : UInt32)

/-- The code a call runs. -/
def Call.run : Call → Code Unit
  | .putchar c => terminalPutchar c
  | .write data size => terminalWrite data size
  | .print data => terminalPrint data

/-- The terminal before `init_terminal`: its globals are zero. -/
def Terminal.boot (mem : Bytes) : Terminal where
  mem := mem
  terminalRow := 0
  terminalColumn := 0
  terminalColor := 0
  terminalPtr := 0
  typed := []
  cells := []

/-- A call that returns. -/
def Prints (s : Terminal) (call : Call) (after : Terminal) : Prop := call.run s = .ok () after

/-- A run of calls from the state `init_terminal` leaves. -/
def Run (mem : Bytes) (calls : List Call) (s : Terminal) : Prop :=
  ∃ start, initTerminal (Terminal.boot mem) = .ok () start ∧ Reaches Prints start calls s

/-! ## The cursor stays on the screen until a newline leaves it -/

/-- Every cursor so far, the present one included, and every cell stored to are on
the screen. -/
structure OnScreen (s : Terminal) : Prop where
  row : s.terminalRow < vgaHeight
  column : s.terminalColumn < vgaWidth
  typed : ∀ typed ∈ s.typed, typed.row < vgaHeight ∧ typed.column < vgaWidth
  cells : ∀ index ∈ s.cells, index < vgaWidth * vgaHeight

/-- No newline was printed with the cursor in the last row. -/
def NewlinesAbove (s : Terminal) : Prop :=
  ∀ typed ∈ s.typed, typed.character = newline → typed.row ≠ vgaHeight - 1

/-- A cell at a cursor on the screen is on the screen. -/
theorem cell_onScreen {x y : UInt32} (column : x < vgaWidth) (row : y < vgaHeight) :
    y * vgaWidth + x < vgaWidth * vgaHeight := by
  have width : vgaWidth.toNat = 80 := rfl
  have height : vgaHeight.toNat = 25 := rfl
  rw [UInt32.lt_iff_toNat_lt] at column row ⊢
  have start : (y * vgaWidth).toNat = y.toNat * 80 := by
    rw [UInt32.toNat_mul, width]
    omega
  have index : (y * vgaWidth + x).toNat = y.toNat * 80 + x.toNat := by
    rw [UInt32.toNat_add, start, Nat.mod_eq_of_lt (by omega)]
  have all : (vgaWidth * vgaHeight).toNat = 2000 := rfl
  rw [index, all]
  omega

/-- Counting up to a bound without reaching it. -/
theorem succ_lt {index bound : UInt32} (below : index < bound) (notLast : index + 1 ≠ bound) :
    index + 1 < bound := by
  have one : (1 : UInt32).toNat = 1 := rfl
  have wide := bound.toNat_lt
  rw [UInt32.lt_iff_toNat_lt] at below ⊢
  rw [ne_eq, ← UInt32.toNat_inj] at notLast
  rw [UInt32.toNat_add, one] at notLast ⊢
  omega

section Putchar

variable (s : Terminal) {c : UInt8}

theorem terminalPutchar_newline :
    terminalPutchar newline s =
      .ok ()
        { s with
          typed := s.typed ++ [⟨newline, s.terminalRow, s.terminalColumn⟩]
          terminalRow := s.terminalRow + 1
          terminalColumn := 0 } := rfl

/-- The state `terminal_put_at` leaves at the cursor. -/
def Terminal.printed (c : UInt8) : Terminal :=
  { s.setCell (s.terminalRow * vgaWidth + s.terminalColumn) (vgaChar s.terminalColor c) with
    typed := s.typed ++ [⟨c, s.terminalRow, s.terminalColumn⟩]
    cells := s.cells ++ [s.terminalRow * vgaWidth + s.terminalColumn] }

theorem terminalPutchar_other (printable : c ≠ newline) :
    terminalPutchar c s = advanceCursor (s.printed c) := by
  refine (bind_of_ok (update_run _ s)).trans ?_
  rw [if_neg printable, bind_of_ok (read_run _ _), bind_of_ok (read_run _ _)]
  exact bind_of_ok (update_run _ _)

theorem terminalPutchar_returns (c : UInt8) : ∃ after, terminalPutchar c s = .ok () after := by
  by_cases isNewline : c = newline
  · subst isNewline
    exact ⟨_, terminalPutchar_newline s⟩
  · exact ⟨_, terminalPutchar_other s isNewline⟩

/-- What was printed earlier and where the cursor was then. -/
theorem OnScreen.of_typed {s after : Terminal} (onScreen : OnScreen after)
    (typed : after.typed = s.typed ++ [⟨c, s.terminalRow, s.terminalColumn⟩])
    (cells : ∀ index ∈ s.cells, index ∈ after.cells) : OnScreen s := by
  have here := onScreen.typed ⟨c, s.terminalRow, s.terminalColumn⟩ (by simp [typed])
  constructor
  · exact here.1
  · exact here.2
  · intro earlier member
    exact onScreen.typed earlier (by simp [typed, member])
  · intro index member
    exact onScreen.cells index (cells index member)

/-- The cursor after an ordinary character stays on the screen. -/
theorem advanceCursor_onScreen {s : Terminal} (onScreen : OnScreen s) :
    OnScreen (final (advanceCursor s)) := by
  obtain ⟨row, column, typed, cells⟩ := onScreen
  simp only [advanceCursor, update_run, final_ok]
  by_cases full : s.terminalColumn + 1 = vgaWidth
  · rw [if_pos full]
    refine ⟨?_, (by decide : (0 : UInt32) < vgaWidth), typed, cells⟩
    by_cases last : s.terminalRow + 1 = vgaHeight
    · simp [last, vgaHeight]
    · simpa [last] using succ_lt row last
  · rw [if_neg full]
    exact ⟨row, succ_lt column full, typed, cells⟩

end Putchar

/-- `terminal_putchar` keeps the cursor on the screen, except for a newline in the
last row. -/
theorem terminalPutchar_onScreen_iff (c : UInt8) (s : Terminal) :
    OnScreen (final (terminalPutchar c s)) ↔
      OnScreen s ∧ (c = newline → s.terminalRow ≠ vgaHeight - 1) := by
  by_cases isNewline : c = newline
  · subst isNewline
    rw [terminalPutchar_newline, final_ok]
    constructor
    · intro after
      refine ⟨after.of_typed rfl fun _ member => member, fun _ last => ?_⟩
      have row : s.terminalRow + 1 < vgaHeight := after.row
      rw [last] at row
      exact absurd row (by decide)
    · rintro ⟨⟨row, column, typed, cells⟩, above⟩
      have notLast : s.terminalRow + 1 ≠ vgaHeight := fun last => above rfl (by grind)
      refine ⟨succ_lt row notLast, (by decide : (0 : UInt32) < vgaWidth), ?_, cells⟩
      intro entry member
      rcases List.mem_append.mp member with earlier | new
      · exact typed entry earlier
      · rw [List.mem_singleton.mp new]
        exact ⟨row, column⟩
  · rw [terminalPutchar_other s isNewline]
    constructor
    · intro after
      refine ⟨?_, fun same => absurd same isNewline⟩
      apply after.of_typed
      · simp only [advanceCursor, update_run, final_ok]
        split <;> rfl
      · intro index member
        simp only [advanceCursor, update_run, final_ok]
        split <;> exact List.mem_append_left _ member
    · rintro ⟨⟨row, column, typed, cells⟩, -⟩
      apply advanceCursor_onScreen
      refine ⟨row, column, ?_, ?_⟩
      · intro entry member
        rcases List.mem_append.mp member with earlier | new
        · exact typed entry earlier
        · rw [List.mem_singleton.mp new]
          exact ⟨row, column⟩
      · intro index member
        rcases List.mem_append.mp member with earlier | new
        · exact cells index earlier
        · rw [List.mem_singleton.mp new]
          exact cell_onScreen column row

theorem terminalPutchar_newlinesAbove_iff (c : UInt8) (s : Terminal) :
    NewlinesAbove (final (terminalPutchar c s)) ↔
      NewlinesAbove s ∧ (c = newline → s.terminalRow ≠ vgaHeight - 1) := by
  have history : (final (terminalPutchar c s)).typed =
      s.typed ++ [⟨c, s.terminalRow, s.terminalColumn⟩] := by
    by_cases isNewline : c = newline
    · rw [isNewline, terminalPutchar_newline]
      rfl
    · rw [terminalPutchar_other s isNewline]
      simp only [advanceCursor, update_run, final_ok]
      split <;> rfl
  simp [NewlinesAbove, history, or_imp, forall_and]

/-- Whether the cursor is on the screen is decided by the newlines in the last row. -/
def Exact (s : Terminal) : Prop := OnScreen s ↔ NewlinesAbove s

/-- What each call keeps. -/
def KeepsExact (s after : Terminal) : Prop := Exact s → Exact after

theorem KeepsExact.trans (first middle last : Terminal) (left : KeepsExact first middle)
    (right : KeepsExact middle last) : KeepsExact first last :=
  fun holds => right (left holds)

theorem terminalPutchar_keeps (c : UInt8) : Respects KeepsExact (terminalPutchar c) := by
  intro s holds
  rw [Exact, terminalPutchar_onScreen_iff, terminalPutchar_newlinesAbove_iff, holds.eq]

theorem terminalWrite_keeps (data size : UInt32) :
    Respects KeepsExact (terminalWrite data size) := by
  apply Respects.times (fun _ => id) KeepsExact.trans
  intro index
  exact Respects.bind KeepsExact.trans (fun _ => id) terminalPutchar_keeps

theorem terminalPrint_keeps (data : UInt32) : Respects KeepsExact (terminalPrint data) := by
  apply Respects.bind KeepsExact.trans
  · apply Respects.loop (fun _ => id) KeepsExact.trans
    intro len s holds
    exact holds
  · exact terminalWrite_keeps data

theorem Call.keeps (call : Call) : Respects KeepsExact call.run := by
  cases call with
  | putchar c => exact terminalPutchar_keeps c
  | write data size => exact terminalWrite_keeps data size
  | print data => exact terminalPrint_keeps data

/-- What the clearing loop of `init_terminal` leaves alone. -/
def SameCursor (s after : Terminal) : Prop :=
  after.terminalRow = s.terminalRow ∧ after.terminalColumn = s.terminalColumn ∧
    after.typed = s.typed ∧ after.cells = s.cells

theorem SameCursor.trans (first middle last : Terminal) (left : SameCursor first middle)
    (right : SameCursor middle last) : SameCursor first last := by
  obtain ⟨row, column, typed, cells⟩ := left
  obtain ⟨row', column', typed', cells'⟩ := right
  exact ⟨row'.trans row, column'.trans column, typed'.trans typed, cells'.trans cells⟩

theorem clearScreen_yields (width height : Nat) (s : Terminal) :
    Yields (clearScreen width height s) (fun _ after => SameCursor s after)
      (fun _ : Halt => False) := by
  have refl : SameCursor s s := ⟨rfl, rfl, rfl, rfl⟩
  unfold clearScreen
  apply Yields.times (I := fun _ after => SameCursor s after) refl
  intro y line _ same
  apply Yields.times (I := fun _ after => SameCursor s after) same
  intro x cell _ same
  exact SameCursor.trans _ _ _ same ⟨rfl, rfl, rfl, rfl⟩

/-- `init_terminal` returns with the cursor at the top left and nothing printed. -/
theorem initTerminal_run (mem : Bytes) :
    ∃ s, initTerminal (Terminal.boot mem) = .ok () s ∧
      SameCursor (Terminal.boot mem) s := by
  obtain ⟨_, s, returned, same⟩ :=
    (clearScreen_yields vgaWidth.toNat vgaHeight.toNat (Terminal.boot mem).homed).returns
  refine ⟨s, ?_, same⟩
  rw [initTerminal, bind_of_ok (update_run _ _)]
  exact returned

theorem initTerminal_exact {mem : Bytes} {s : Terminal}
    (started : initTerminal (Terminal.boot mem) = .ok () s) : Exact s := by
  obtain ⟨_, returned, row, column, typed, cells⟩ := initTerminal_run mem
  cases started.symm.trans returned
  constructor
  · intro _ entry member
    simp [typed, Terminal.boot] at member
  · intro _
    refine ⟨?_, ?_, ?_, ?_⟩
    · rw [row]
      exact (by decide : (0 : UInt32) < vgaHeight)
    · rw [column]
      exact (by decide : (0 : UInt32) < vgaWidth)
    · intro entry member
      simp [typed, Terminal.boot] at member
    · intro index member
      simp [cells, Terminal.boot] at member

/-- In every run from `init_terminal` the cursor has stayed on the screen, and with it
every cell stored to, exactly when no newline was printed in the last row. -/
theorem onScreen_iff_newlinesAbove {mem : Bytes} {calls : List Call} {s : Terminal}
    (run : Run mem calls s) : OnScreen s ↔ NewlinesAbove s := by
  obtain ⟨start, started, printed⟩ := run
  exact printed.invariant (initTerminal_exact started) fun holds returned =>
    (Call.keeps _).of_ok returned holds

/-! ## A newline in the last row -/

/-- Newlines alone move the cursor down, past the last row too. -/
theorem newlines_run (start : Terminal) (count : Nat) :
    ∃ s, Reaches Prints start (List.replicate count (.putchar newline)) s ∧
      s.terminalRow = start.terminalRow + UInt32.ofNat count ∧
      (0 < count → s.terminalColumn = 0) := by
  induction count with
  | zero => exact ⟨start, .refl, by simp, by simp⟩
  | succ count ih =>
      obtain ⟨s, run, row, _⟩ := ih
      have printed : Prints s (.putchar newline) _ := terminalPutchar_newline s
      refine ⟨_, List.replicate_succ' ▸ run.snoc printed, ?_, fun _ => rfl⟩
      simp [row, UInt32.ofNat_add, UInt32.add_assoc]

theorem onScreen_iff_newlinesAbove_one_newline :
    ∃ s, Run (fun _ => 0) [.putchar newline] s ∧ OnScreen s := by
  obtain ⟨start, started, row, column, typed, cells⟩ := initTerminal_run fun _ => 0
  have printed : Prints start (.putchar newline) _ := terminalPutchar_newline start
  have run : Run (fun _ => 0) [.putchar newline] _ := ⟨start, started, .snoc .refl printed⟩
  refine ⟨_, run, (onScreen_iff_newlinesAbove run).mpr ?_⟩
  intro entry member _
  simp only [typed, Terminal.boot, List.nil_append, List.mem_singleton] at member
  rw [member, row]
  exact (by decide : (0 : UInt32) ≠ vgaHeight - 1)

/-- After twenty-five newlines the next character is stored past the last cell. -/
theorem newlines_leave_screen :
    ∃ s, Run (fun _ => 0) (List.replicate 25 (.putchar newline) ++ [.putchar 0x78]) s ∧
      ¬ s.terminalRow < vgaHeight ∧ vgaWidth * vgaHeight ∈ s.cells := by
  obtain ⟨start, started, row, _, _, _⟩ := initTerminal_run fun _ => 0
  obtain ⟨s, run, below, left⟩ := newlines_run start 25
  have wide : s.terminalColumn = 0 := left (by decide)
  have low : s.terminalRow = 25 := by
    rw [below, row]
    rfl
  have printed : Prints s (.putchar 0x78) (final (advanceCursor (s.printed 0x78))) :=
    terminalPutchar_other s (by decide)
  have short : (s.printed 0x78).terminalColumn + 1 ≠ vgaWidth := by
    change s.terminalColumn + 1 ≠ vgaWidth
    rw [wide]
    decide
  rw [advanceCursor, update_run, final_ok, if_neg short] at printed
  refine ⟨_, ⟨start, started, run.snoc printed⟩, ?_, ?_⟩
  · change ¬ s.terminalRow < vgaHeight
    rw [low]
    decide
  · change _ ∈ s.cells ++ [s.terminalRow * vgaWidth + s.terminalColumn]
    rw [low, wide]
    exact List.mem_append_right _ (List.mem_singleton.mpr rfl)

end TorchOS.Tty
