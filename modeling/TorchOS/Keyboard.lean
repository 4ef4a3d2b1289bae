import TorchOS.Terminal
import Mathlib.Data.Finset.Basic

/-!
# The keyboard of `keyboard.c`

`keyboard_handler` turns scan codes into characters on the terminal and counts the
shift keys that are down. A keyboard sends a make code when a key goes down, the same
code again while it is held, and the code with its high bit set when it is released.
-/

namespace TorchOS.Keys

open Base Base.Program

/-- The rows of `keymap`: `NORMAL` and `SHIFT`. -/
inductive Modifier where
  | normal
  | shifted
  deriving DecidableEq

/-- The globals of `keyboard.c`, the terminal and what `logf` has printed. -/
structure Keyboard where
  keymap : Modifier → UInt8 → UInt8
  shift : Int32
  terminal : Tty.Terminal
  serial : List LogLine

/-- Code of `keyboard.c`. -/
abbrev Code := Program Halt Keyboard

/-- `logf` -/
def logf (format : String) (arguments : List LogArgument) : Code Unit :=
  update fun s => { s with serial := s.serial ++ [⟨format, arguments⟩] }

/-- A call of code of `tty.c`. -/
def onTerminal (code : Tty.Code Unit) : Code Unit := fun s =>
  match code s.terminal with
  | .ok value terminal => .ok value { s with terminal := terminal }
  | .error reason terminal => .error reason { s with terminal := terminal }

/-- The two shift keys. -/
def IsShift (key : UInt8) : Prop := key = 0x2a ∨ key = 0x36

instance : DecidablePred IsShift := fun key =>
  inferInstanceAs (Decidable (key = 0x2a ∨ key = 0x36))

/-- `process_key_press` -/
def processKeyPress (scanCode : UInt8) : Code Unit := do
  let shift ← read Keyboard.shift
  let modifier := if 0 < shift then Modifier.shifted else Modifier.normal
  if IsShift scanCode then
    update fun s => { s with shift := s.shift + 1 }
  else
    let c ← read fun s => s.keymap modifier scanCode
    if c = 0 then
      logf "[PANIC] Unhandled keypress: %x" [.number scanCode.toUInt32]
      halt .endless
    else
      onTerminal (Tty.terminalPutchar c)

/-- `process_key_release` -/
def processKeyRelease (scanCode : UInt8) : Code Unit := do
  let key := scanCode - 0x80
  if IsShift key then
    update fun s => { s with shift := s.shift - 1 }
    let shift ← read Keyboard.shift
    if shift < 0 then
      logf "[PANIC] More shift keys were released than pressed" []
      halt .endless
    else
      pure ()
  else
    pure ()

/-- `keyboard_handler`, given the byte it reads from port 0x60. -/
def keyboardHandler (scanCode : UInt8) : Code Unit :=
  if scanCode &&& 0x80 ≠ 0 then processKeyRelease scanCode else processKeyPress scanCode

/-- The assignments to `keymap[0]` in `init_keyboard`. -/
def normalKeys : List (UInt8 × UInt8) :=
  [(0x1E, 97), (0x30, 98), (0x2E, 99), (0x20, 100), (0x12, 101), (0x21, 102), (0x22, 103),
    (0x23, 104), (0x17, 105), (0x24, 106), (0x25, 107), (0x26, 108), (0x32, 109), (0x31, 110),
    (0x18, 111), (0x19, 112), (0x10, 113), (0x13, 114), (0x1f, 115), (0x14, 116), (0x16, 117),
    (0x2f, 118), (0x11, 119), (0x2d, 120), (0x15, 121), (0x2c, 122), (0x1c, 10), (0x39, 32),
    (0x34, 46), (0x27, 59)]

/-- The assignments to `keymap[1]` in `init_keyboard`. -/
def shiftedKeys : List (UInt8 × UInt8) :=
  [(0x1E, 65), (0x30, 66), (0x2E, 67), (0x20, 68), (0x12, 69), (0x21, 70), (0x22, 71),
    (0x23, 72), (0x17, 73), (0x24, 74), (0x25, 75), (0x26, 76), (0x32, 77), (0x31, 78),
    (0x18, 79), (0x19, 80), (0x10, 81), (0x13, 82), (0x1f, 83), (0x14, 84), (0x4e, 85),
    (0x2f, 86), (0x11, 87), (0x2d, 88), (0x15, 89), (0x2c, 90), (0x1c, 10), (0x39, 32),
    (0x34, 62), (0x27, 58)]

/-- One row of `keymap` after some assignments. -/
def assign (entries : List (UInt8 × UInt8)) (row : UInt8 → UInt8) : UInt8 → UInt8 :=
  entries.foldl (fun row entry => Function.update row entry.1 entry.2) row

/-- `init_keyboard`. Its `memset` runs over `KEYMAP_SIZE` bytes, the first row only.
The table of interrupt handlers is not part of this state. -/
def initKeyboard : Code Unit := do
  update fun s => { s with keymap := Function.update s.keymap .normal fun _ => 0 }
  update fun s => { s with
    keymap := Function.update s.keymap .normal (assign normalKeys (s.keymap .normal)) }
  update fun s => { s with
    keymap := Function.update s.keymap .shifted (assign shiftedKeys (s.keymap .shifted)) }
  logf "Registering interrupt handler for interrupt %x\n" [.number 33]

/-- The globals before `init_keyboard`: all zero. -/
def Keyboard.boot (terminal : Tty.Terminal) (serial : List LogLine) : Keyboard where
  keymap := fun _ _ => 0
  shift := 0
  terminal := terminal
  serial := serial

/-- The rows of `keymap` that `init_keyboard` leaves. -/
def initialKeymap : Modifier → UInt8 → UInt8
  | .normal => assign normalKeys fun _ => 0
  | .shifted => assign shiftedKeys fun _ => 0

/-- `keyboard_handler` for one scan code after another. -/
def handleAll : List UInt8 → Code Unit
  | [] => pure ()
  | scanCode :: rest => do
      keyboardHandler scanCode
      handleAll rest

/-! ## Keys and the codes they send -/

/-- What happens to a key: it goes down, is repeated while held, or comes up. -/
inductive KeyEvent where
  | press (key : UInt8)
  | again (key : UInt8)
  | release (key : UInt8)
  deriving DecidableEq

namespace KeyEvent

/-- The key of an event. -/
def key : KeyEvent → UInt8
  | press key => key
  | again key => key
  | release key => key

/-- The scan code the keyboard sends. -/
def scanCode : KeyEvent → UInt8
  | press key => key
  | again key => key
  | release key => key ||| 0x80

/-- The keys held after an event. -/
def after (held : Finset UInt8) : KeyEvent → Finset UInt8
  | press key => insert key held
  | again _ => held
  | release key => held.erase key

/-- A key goes down when it is up, and is repeated and comes up when it is down. -/
def Possible (held : Finset UInt8) : KeyEvent → Prop
  | press key => key ∉ held
  | again key => key ∈ held
  | release key => key ∈ held

instance (held : Finset UInt8) : DecidablePred (Possible held)
  | press key => inferInstanceAs (Decidable (key ∉ held))
  | again key => inferInstanceAs (Decidable (key ∈ held))
  | release key => inferInstanceAs (Decidable (key ∈ held))

/-- A shift key is repeated. -/
def RepeatsShift : KeyEvent → Prop
  | press _ => False
  | again key => IsShift key
  | release _ => False

instance : DecidablePred RepeatsShift
  | press _ => inferInstanceAs (Decidable False)
  | again key => inferInstanceAs (Decidable (IsShift key))
  | release _ => inferInstanceAs (Decidable False)

end KeyEvent

/-- The keys held after a stream of events, with no key held before. -/
def heldAfter (events : List KeyEvent) : Finset UInt8 := events.foldl KeyEvent.after ∅

/-- A stream of events a keyboard with these keys can send. -/
inductive Stream (keys : Set UInt8) : List KeyEvent → Prop where
  | nil : Stream keys []
  | snoc {past : List KeyEvent} {event : KeyEvent} (stream : Stream keys past)
      (known : event.key ∈ keys) (possible : event.Possible (heldAfter past)) :
      Stream keys (past ++ [event])

theorem Stream.mono {keys more : Set UInt8} {events : List KeyEvent} (stream : Stream keys events)
    (subset : keys ⊆ more) : Stream more events := by
  induction stream with
  | nil => exact .nil
  | snoc _ known possible ih => exact .snoc ih (subset known) possible

/-- A shift key is held. -/
def ShiftHeld (events : List KeyEvent) : Prop := ∃ key ∈ heldAfter events, IsShift key

instance (events : List KeyEvent) : Decidable (ShiftHeld events) :=
  inferInstanceAs (Decidable (∃ key ∈ heldAfter events, IsShift key))

/-- How often a shift key was repeated. -/
def shiftRepeats (events : List KeyEvent) : Nat :=
  events.countP fun event => decide event.RepeatsShift

/-- How many shift keys are held. -/
def heldShifts (events : List KeyEvent) : Nat :=
  (if 0x2a ∈ heldAfter events then 1 else 0) + if 0x36 ∈ heldAfter events then 1 else 0

/-- The value `shift` counts to: a make code counts one up, a release one down. -/
def shiftCount (events : List KeyEvent) : Nat := heldShifts events + shiftRepeats events

section Streams

variable {keys : Set UInt8} {past : List KeyEvent} {event : KeyEvent} {key : UInt8}

theorem heldAfter_snoc : heldAfter (past ++ [event]) = event.after (heldAfter past) := by
  simp [heldAfter]

theorem shiftRepeats_snoc :
    shiftRepeats (past ++ [event]) =
      shiftRepeats past + if event.RepeatsShift then 1 else 0 := by
  simp [shiftRepeats, List.countP_append, List.countP_cons]

theorem shiftHeld_iff : ShiftHeld past ↔ 0 < heldShifts past := by
  simp only [ShiftHeld, IsShift, heldShifts]
  grind

theorem shiftCount_press (up : key ∉ heldAfter past) (isShift : IsShift key) :
    shiftCount (past ++ [.press key]) = shiftCount past + 1 := by
  simp only [shiftCount, shiftRepeats_snoc, heldShifts, heldAfter_snoc, KeyEvent.after,
    KeyEvent.RepeatsShift, Finset.mem_insert]
  rcases isShift with rfl | rfl <;> simp [up] <;> omega

theorem shiftCount_again (isShift : IsShift key) :
    shiftCount (past ++ [.again key]) = shiftCount past + 1 := by
  have repeats : (KeyEvent.again key).RepeatsShift := isShift
  simp only [shiftCount, shiftRepeats_snoc, if_pos repeats, heldShifts, heldAfter_snoc,
    KeyEvent.after]
  omega

theorem shiftCount_release (down : key ∈ heldAfter past) (isShift : IsShift key) :
    shiftCount (past ++ [.release key]) + 1 = shiftCount past := by
  simp only [shiftCount, shiftRepeats_snoc, heldShifts, heldAfter_snoc, KeyEvent.after,
    KeyEvent.RepeatsShift, Finset.mem_erase]
  rcases isShift with rfl | rfl <;> simp [down] <;> omega

theorem shiftCount_other (notShift : ¬ IsShift event.key) :
    shiftCount (past ++ [event]) = shiftCount past := by
  cases event with
  | press key =>
      obtain ⟨notLeft, notRight⟩ : key ≠ 0x2a ∧ key ≠ 0x36 := not_or.mp notShift
      simp [shiftCount, shiftRepeats_snoc, heldShifts, heldAfter_snoc, KeyEvent.after,
        KeyEvent.RepeatsShift, notLeft.symm, notRight.symm]
  | again key =>
      have single : ¬ (KeyEvent.again key).RepeatsShift := notShift
      simp [shiftCount, shiftRepeats_snoc, heldShifts, heldAfter_snoc, KeyEvent.after, single]
  | release key =>
      obtain ⟨notLeft, notRight⟩ : key ≠ 0x2a ∧ key ≠ 0x36 := not_or.mp notShift
      simp [shiftCount, shiftRepeats_snoc, heldShifts, heldAfter_snoc, KeyEvent.after,
        KeyEvent.RepeatsShift, notLeft.symm, notRight.symm]

end Streams

/-! ## One call of the handler -/

/-- Keys that no assignment names keep their character. -/
theorem assign_of_notMem {entries : List (UInt8 × UInt8)} {row : UInt8 → UInt8} {key : UInt8}
    (unnamed : key ∉ entries.map Prod.fst) : assign entries row key = row key := by
  induction entries generalizing row with
  | nil => rfl
  | cons entry rest ih =>
      obtain ⟨other, later⟩ : key ≠ entry.1 ∧ key ∉ rest.map Prod.fst := by
        simpa only [List.map_cons, List.mem_cons, not_or] using unnamed
      rw [assign, List.foldl_cons, ← assign, ih later, Function.update_of_ne other]

/-- The shift keys and the keys that `init_keyboard` maps in the normal row. -/
def normalMapped : Set UInt8 := {key | IsShift key ∨ initialKeymap .normal key ≠ 0}

/-- The shift keys and the keys that `init_keyboard` maps in both rows. -/
def bothMapped : Set UInt8 := {key | IsShift key ∨ ∀ modifier, initialKeymap modifier key ≠ 0}

theorem bothMapped_subset : bothMapped ⊆ normalMapped := by
  rintro key (isShift | mapped)
  · exact Or.inl isShift
  · exact Or.inr (mapped .normal)

/-- The keys of `normalMapped`. -/
def normalCodes : List UInt8 := 0x2a :: 0x36 :: normalKeys.map Prod.fst

theorem mem_normalCodes {key : UInt8} (known : key ∈ normalMapped) : key ∈ normalCodes := by
  rcases known with (rfl | rfl) | mapped
  · decide
  · decide
  · by_contra unknown
    simp only [normalCodes, List.mem_cons, not_or] at unknown
    exact mapped (assign_of_notMem unknown.2.2)

/-- What holds of each of these codes holds of each of the keys. -/
theorem of_normalCodes {P : UInt8 → Prop} [DecidablePred P]
    (all : (normalCodes.all fun code => decide (P code)) = true) {key : UInt8}
    (known : key ∈ normalMapped) : P key :=
  of_decide_eq_true (List.all_eq_true.mp all key (mem_normalCodes known))

/-- The codes of these keys have their high bit clear. -/
theorem codes {key : UInt8} (known : key ∈ normalMapped) :
    key &&& 0x80 = 0 ∧ (key ||| 0x80) &&& 0x80 ≠ 0 ∧ (key ||| 0x80) - 0x80 = key := by
  have all : (normalCodes.all fun code => decide (code &&& 0x80 = 0 ∧
      (code ||| 0x80) &&& 0x80 ≠ 0 ∧ (code ||| 0x80) - 0x80 = code)) = true := by decide
  exact of_normalCodes all known

section Handler

variable {s : Keyboard} {key c : UInt8} {modifier : Modifier}

theorem keyboardHandler_press (known : key ∈ normalMapped) :
    keyboardHandler key = processKeyPress key :=
  if_neg (not_not.mpr (codes known).1)

theorem keyboardHandler_release (known : key ∈ normalMapped) :
    keyboardHandler (key ||| 0x80) = processKeyRelease (key ||| 0x80) :=
  if_pos (codes known).2.1

theorem processKeyPress_shift (isShift : IsShift key) :
    processKeyPress key s = .ok () { s with shift := s.shift + 1 } := by
  rw [processKeyPress, bind_of_ok (read_run _ s), if_pos isShift, update_run]

theorem processKeyPress_mapped (notShift : ¬ IsShift key)
    (selected : modifier = if 0 < s.shift then Modifier.shifted else Modifier.normal)
    (mapped : s.keymap modifier key ≠ 0) :
    processKeyPress key s = onTerminal (Tty.terminalPutchar (s.keymap modifier key)) s := by
  subst selected
  rw [processKeyPress, bind_of_ok (read_run _ s), if_neg notShift, bind_of_ok (read_run _ s),
    if_neg mapped]

theorem processKeyPress_unmapped (notShift : ¬ IsShift key)
    (selected : modifier = if 0 < s.shift then Modifier.shifted else Modifier.normal)
    (unmapped : s.keymap modifier key = 0) :
    ∃ after, processKeyPress key s = .error .endless after := by
  subst selected
  rw [processKeyPress, bind_of_ok (read_run _ s), if_neg notShift, bind_of_ok (read_run _ s),
    if_pos unmapped]
  exact ⟨_, rfl⟩

theorem processKeyRelease_shift (known : key ∈ normalMapped) (isShift : IsShift key)
    (positive : ¬ s.shift - 1 < 0) :
    processKeyRelease (key ||| 0x80) s = .ok () { s with shift := s.shift - 1 } := by
  rw [processKeyRelease, (codes known).2.2, if_pos isShift, bind_of_ok (update_run _ s),
    bind_of_ok (read_run _ _), if_neg positive, pure_run]

theorem processKeyRelease_other (known : key ∈ normalMapped) (notShift : ¬ IsShift key) :
    processKeyRelease (key ||| 0x80) s = .ok () s := by
  rw [processKeyRelease, (codes known).2.2, if_neg notShift, pure_run]

/-- `terminal_putchar` always returns, and touches the terminal only. -/
theorem onTerminal_run (c : UInt8) (s : Keyboard) :
    ∃ terminal, Tty.terminalPutchar c s.terminal = .ok () terminal ∧
      onTerminal (Tty.terminalPutchar c) s = .ok () { s with terminal := terminal } := by
  obtain ⟨terminal, printed⟩ := Tty.terminalPutchar_returns s.terminal c
  refine ⟨terminal, printed, ?_⟩
  rw [onTerminal, printed]

end Handler

/-- The state `init_keyboard` leaves. -/
def Keyboard.ready (terminal : Tty.Terminal) (serial : List LogLine) : Keyboard where
  keymap := initialKeymap
  shift := 0
  terminal := terminal
  serial := serial ++ [⟨"Registering interrupt handler for interrupt %x\n", [.number 33]⟩]

theorem initKeyboard_run (terminal : Tty.Terminal) (serial : List LogLine) :
    initKeyboard (Keyboard.boot terminal serial) = .ok () (Keyboard.ready terminal serial) := by
  have rows : (fun modifier => (Keyboard.ready terminal serial).keymap modifier) =
      initialKeymap := rfl
  rw [initKeyboard, bind_of_ok (update_run _ _), bind_of_ok (update_run _ _),
    bind_of_ok (update_run _ _), logf, update_run]
  congr 2
  funext modifier
  cases modifier <;> rfl

/-! ## The counter -/

/-- The keymap is as `init_keyboard` left it and `shift` has counted every event. -/
structure Counted (past : List KeyEvent) (s : Keyboard) : Prop where
  keymap : s.keymap = initialKeymap
  shift : s.shift = Int32.ofNat (shiftCount past)

theorem counted_nil (terminal : Tty.Terminal) (serial : List LogLine) :
    Counted [] (Keyboard.ready terminal serial) := ⟨rfl, rfl⟩

/-- Below 2^31 the counter is positive when it has counted anything. -/
theorem ofNat_pos_iff {count : Nat} (small : count < 2 ^ 31) :
    0 < Int32.ofNat count ↔ 0 < count := by
  rw [Int32.lt_iff_toInt_lt, Int32.toInt_ofNat_of_lt small]
  simp

theorem ofNat_nonneg {count : Nat} (small : count < 2 ^ 31) : 0 ≤ Int32.ofNat count := by
  rw [Int32.le_iff_toInt_le, Int32.toInt_ofNat_of_lt small]
  simp

/-- At 2^31 the counter has wrapped. -/
theorem ofNat_wraps : ¬ 0 ≤ Int32.ofNat (2 ^ 31) := by decide

section Step

variable {keys : Set UInt8} {past : List KeyEvent} {event : KeyEvent} {key : UInt8}
  {s : Keyboard}

theorem Counted.pressed_iff (counted : Counted past s) (small : shiftCount past < 2 ^ 31) :
    0 < s.shift ↔ 0 < shiftCount past := by
  rw [counted.shift, ofNat_pos_iff small]

/-- A shift key counts up or down. -/
theorem Counted.handle_shift (counted : Counted past s) (small : shiftCount past < 2 ^ 31)
    (isShift : IsShift event.key) (possible : event.Possible (heldAfter past)) :
    ∃ after, keyboardHandler event.scanCode s = .ok () after ∧
      Counted (past ++ [event]) after := by
  have up : s.shift + 1 = Int32.ofNat (shiftCount past + 1) := by
    rw [counted.shift, Int32.ofNat_add]
    rfl
  cases event with
  | press key =>
      have isShift : IsShift key := isShift
      refine ⟨{ s with shift := s.shift + 1 }, ?_, counted.keymap, ?_⟩
      · exact (congrFun (keyboardHandler_press (Or.inl isShift)) s).trans
          (processKeyPress_shift isShift)
      · rw [shiftCount_press possible isShift, ← up]
  | again key =>
      have isShift : IsShift key := isShift
      refine ⟨{ s with shift := s.shift + 1 }, ?_, counted.keymap, ?_⟩
      · exact (congrFun (keyboardHandler_press (Or.inl isShift)) s).trans
          (processKeyPress_shift isShift)
      · rw [shiftCount_again isShift, ← up]
  | release key =>
      have count := shiftCount_release possible isShift
      have down : s.shift - 1 = Int32.ofNat (shiftCount (past ++ [.release key])) := by
        rw [counted.shift, ← count, Int32.ofNat_add]
        grind
      have notNegative : ¬ s.shift - 1 < 0 := by
        rw [down, Int32.not_lt]
        exact ofNat_nonneg (by omega)
      refine ⟨{ s with shift := s.shift - 1 }, ?_, counted.keymap, down⟩
      exact (congrFun (keyboardHandler_release (Or.inl isShift)) s).trans
        (processKeyRelease_shift (Or.inl isShift) isShift notNegative)

/-- The row of `keymap` that the handler looks characters up in. -/
def rowAfter (past : List KeyEvent) : Modifier :=
  if 0 < shiftCount past then .shifted else .normal

theorem Counted.row (counted : Counted past s) (small : shiftCount past < 2 ^ 31) :
    rowAfter past = if 0 < s.shift then Modifier.shifted else Modifier.normal := by
  simp only [rowAfter, counted.pressed_iff small]

/-- A key with a character prints it. -/
theorem Counted.handle_mapped (counted : Counted past s) (small : shiftCount past < 2 ^ 31)
    (known : key ∈ normalMapped) (notShift : ¬ IsShift key)
    (mapped : initialKeymap (rowAfter past) key ≠ 0) :
    ∃ terminal,
      Tty.terminalPutchar (initialKeymap (rowAfter past) key) s.terminal = .ok () terminal ∧
        keyboardHandler key s = .ok () { s with terminal := terminal } := by
  obtain ⟨terminal, printed, run⟩ := onTerminal_run (initialKeymap (rowAfter past) key) s
  refine ⟨terminal, printed, ?_⟩
  rw [← counted.keymap] at mapped run
  rw [keyboardHandler_press known, processKeyPress_mapped notShift (counted.row small) mapped, run]

/-- Any other key leaves the counter alone, when the keys that go down have characters. -/
theorem Counted.handle_other (counted : Counted past s) (small : shiftCount past < 2 ^ 31)
    (known : event.key ∈ normalMapped) (notShift : ¬ IsShift event.key)
    (mapped : event.scanCode = event.key → initialKeymap (rowAfter past) event.key ≠ 0) :
    ∃ after, keyboardHandler event.scanCode s = .ok () after ∧
      Counted (past ++ [event]) after := by
  have count : s.shift = Int32.ofNat (shiftCount (past ++ [event])) := by
    rw [shiftCount_other notShift, counted.shift]
  cases event with
  | press key =>
      obtain ⟨terminal, _, run⟩ := counted.handle_mapped small known notShift (mapped rfl)
      exact ⟨_, run, counted.keymap, count⟩
  | again key =>
      obtain ⟨terminal, _, run⟩ := counted.handle_mapped small known notShift (mapped rfl)
      exact ⟨_, run, counted.keymap, count⟩
  | release key =>
      refine ⟨s, ?_, counted.keymap, count⟩
      exact (congrFun (keyboardHandler_release known) s).trans
        (processKeyRelease_other known notShift)

theorem Counted.handle (counted : Counted past s) (small : shiftCount past < 2 ^ 31)
    (known : event.key ∈ normalMapped) (possible : event.Possible (heldAfter past))
    (mapped : ¬ IsShift event.key → event.scanCode = event.key →
      initialKeymap (rowAfter past) event.key ≠ 0) :
    ∃ after, keyboardHandler event.scanCode s = .ok () after ∧
      Counted (past ++ [event]) after := by
  by_cases isShift : IsShift event.key
  · exact counted.handle_shift small isShift possible
  · exact counted.handle_other small known isShift (mapped isShift)

end Step

/-! ## Streams of events -/

/-- The handler called for every event of a stream. -/
def typed (events : List KeyEvent) : Code Unit := handleAll (events.map KeyEvent.scanCode)

theorem handleAll_append (first rest : List UInt8) :
    handleAll (first ++ rest) = (do handleAll first; handleAll rest) := by
  induction first with
  | nil => simp [handleAll]
  | cons scanCode first ih =>
      rw [List.cons_append, handleAll, handleAll, ih, bind_assoc]

/-- One more event is one more call. -/
theorem typed_snoc_ok_iff {past : List KeyEvent} {event : KeyEvent} {s after : Keyboard} :
    typed (past ++ [event]) s = .ok () after ↔
      ∃ middle, typed past s = .ok () middle ∧
        keyboardHandler event.scanCode middle = .ok () after := by
  have single : handleAll [event.scanCode] = keyboardHandler event.scanCode := by
    simp [handleAll]
  rw [typed, List.map_append, handleAll_append, bind_ok_iff]
  simp only [List.map_cons, List.map_nil, single]
  exact ⟨fun ⟨_, middle, before, call⟩ => ⟨middle, before, call⟩,
    fun ⟨middle, before, call⟩ => ⟨(), middle, before, call⟩⟩

/-- After every call of the handler `shift` is positive exactly when a shift key is
held, and never negative. -/
def ShiftExact (start : Keyboard) (events : List KeyEvent) : Prop :=
  ∀ past, past <+: events → ∃ s, typed past start = .ok () s ∧
    (0 < s.shift ↔ ShiftHeld past) ∧ 0 ≤ s.shift

/-- Once a shift key was repeated one is held for good, and `shift` does not count to
2^31. -/
def RepeatsHeld (events : List KeyEvent) : Prop :=
  ∀ past, past <+: events → (0 < shiftRepeats past → ShiftHeld past) ∧ shiftCount past < 2 ^ 31

section Exact

variable {events past : List KeyEvent} {event : KeyEvent} {start s : Keyboard}

theorem RepeatsHeld.of_prefix (held : RepeatsHeld events) (earlier : past <+: events) :
    RepeatsHeld past :=
  fun _ shorter => held _ (shorter.trans earlier)

theorem shiftCount_snoc_le (possible : event.Possible (heldAfter past)) :
    shiftCount (past ++ [event]) ≤ shiftCount past + 1 := by
  by_cases isShift : IsShift event.key
  · cases event with
    | press key => exact (shiftCount_press possible isShift).le
    | again key => exact (shiftCount_again isShift).le
    | release key =>
        have count := shiftCount_release possible isShift
        omega
  · rw [shiftCount_other isShift]
    omega

/-- Where the counter has counted every event and at most to 2^31, it tells whether a
shift key is held exactly when it has counted no repeat but of a held key. -/
theorem Counted.exact_iff (counted : Counted past s) (bounded : shiftCount past ≤ 2 ^ 31) :
    (0 < s.shift ↔ ShiftHeld past) ∧ 0 ≤ s.shift ↔
      (0 < shiftRepeats past → ShiftHeld past) ∧ shiftCount past < 2 ^ 31 := by
  rcases bounded.lt_or_eq with small | wrapped
  · have positive : 0 < s.shift ↔ 0 < shiftCount past := counted.pressed_iff small
    have nonneg : 0 ≤ s.shift := counted.shift ▸ ofNat_nonneg small
    have sum : shiftCount past = heldShifts past + shiftRepeats past := rfl
    rw [positive, shiftHeld_iff]
    simp only [nonneg, small, and_true]
    omega
  · have negative : ¬ 0 ≤ s.shift := by
      rw [counted.shift, wrapped]
      exact ofNat_wraps
    simp [negative, wrapped]

/-- A key mapped in both rows has a character whatever the counter says. -/
theorem mapped_of_both (known : event.key ∈ bothMapped) (notShift : ¬ IsShift event.key) :
    initialKeymap (rowAfter past) event.key ≠ 0 := by
  rcases known with isShift | mapped
  · exact absurd isShift notShift
  · exact mapped _

theorem Stream.counted (stream : Stream bothMapped events) (held : RepeatsHeld events)
    (ready : Counted [] start) : ∃ s, typed events start = .ok () s ∧ Counted events s := by
  induction stream with
  | nil => exact ⟨start, rfl, ready⟩
  | snoc stream known possible ih =>
      obtain ⟨s, run, counted⟩ := ih (held.of_prefix (List.prefix_append _ _))
      have small := (held _ (List.prefix_append _ _)).2
      obtain ⟨after, call, next⟩ := counted.handle small (bothMapped_subset known) possible
        fun notShift _ => mapped_of_both known notShift
      exact ⟨after, typed_snoc_ok_iff.mpr ⟨s, run, call⟩, next⟩

theorem shiftExact_snoc :
    ShiftExact start (past ++ [event]) ↔ ShiftExact start past ∧
      ∃ s, typed (past ++ [event]) start = .ok () s ∧
        (0 < s.shift ↔ ShiftHeld (past ++ [event])) ∧ 0 ≤ s.shift := by
  simp only [ShiftExact, List.prefix_concat_iff, or_imp, forall_and, forall_eq]
  exact and_comm

theorem repeatsHeld_snoc :
    RepeatsHeld (past ++ [event]) ↔ RepeatsHeld past ∧
      (0 < shiftRepeats (past ++ [event]) → ShiftHeld (past ++ [event])) ∧
        shiftCount (past ++ [event]) < 2 ^ 31 := by
  simp only [RepeatsHeld, List.prefix_concat_iff, or_imp, forall_and, forall_eq]
  tauto

theorem heldShifts_le_two : heldShifts past ≤ 2 := by
  simp only [heldShifts]
  grind

theorem shiftRepeats_of_single (single : ∀ event ∈ past, ¬ event.RepeatsShift) :
    shiftRepeats past = 0 := by
  rw [shiftRepeats, List.countP_eq_zero]
  intro event member
  simpa using single event member

/-- Without repeats of a shift key `shift` counts the shift keys that are held. -/
theorem repeatsHeld_of_single (single : ∀ event ∈ events, ¬ event.RepeatsShift) :
    RepeatsHeld events := by
  intro past earlier
  have none : shiftRepeats past = 0 :=
    shiftRepeats_of_single fun event member => single event (earlier.subset member)
  have two : heldShifts past ≤ 2 := heldShifts_le_two
  have sum : shiftCount past = heldShifts past + shiftRepeats past := rfl
  exact ⟨fun repeated => by omega, by omega⟩

/-- `shift` tells after every call whether a shift key is held exactly when no shift key
is repeated and let go with no other held, and no stream counts it to 2^31. -/
theorem shiftExact_iff_repeatsHeld {terminal : Tty.Terminal} {serial : List LogLine}
    (started : initKeyboard (Keyboard.boot terminal serial) = .ok () start)
    (stream : Stream bothMapped events) : ShiftExact start events ↔ RepeatsHeld events := by
  cases started.symm.trans (initKeyboard_run terminal serial)
  have ready := counted_nil terminal serial
  induction stream with
  | nil =>
      simp only [ShiftExact, RepeatsHeld, List.prefix_nil, forall_eq]
      exact iff_of_true ⟨_, rfl, (ready.exact_iff (by decide)).mpr (by decide)⟩ (by decide)
  | snoc stream known possible ih =>
      refine (shiftExact_snoc.trans (and_congr_left fun _ => ih)).trans
        (Iff.trans (and_congr_right fun held => ?_) repeatsHeld_snoc.symm)
      obtain ⟨s, run, counted⟩ := stream.counted held ready
      have small := (held _ List.prefix_rfl).2
      obtain ⟨after, call, next⟩ := counted.handle small (bothMapped_subset known) possible
        fun notShift _ => mapped_of_both known notShift
      have bounded := (shiftCount_snoc_le possible).trans small
      have whole := typed_snoc_ok_iff.mpr ⟨s, run, call⟩
      rw [← next.exact_iff bounded]
      constructor
      · rintro ⟨_, returned, tracked⟩
        cases returned.symm.trans whole
        exact tracked
      · exact fun tracked => ⟨after, whole, tracked⟩

/-- A capital letter: shift down, the key of `A` down and up, shift up. -/
def capital : List KeyEvent := [.press 0x2a, .press 0x1e, .release 0x1e, .release 0x2a]

theorem capital_stream : Stream bothMapped capital := by
  have shiftKey : (0x2a : UInt8) ∈ bothMapped := Or.inl (by decide)
  have letterKey : (0x1e : UInt8) ∈ bothMapped := by
    refine Or.inr fun modifier => ?_
    cases modifier <;> decide
  have first : Stream bothMapped [.press 0x2a] := .snoc .nil shiftKey (by decide)
  have second : Stream bothMapped [.press 0x2a, .press 0x1e] := .snoc first letterKey (by decide)
  have third : Stream bothMapped [.press 0x2a, .press 0x1e, .release 0x1e] :=
    .snoc second letterKey (by decide)
  exact .snoc third shiftKey (by decide)

theorem shiftExact_iff_repeatsHeld_capital :
    ShiftExact (Keyboard.ready (Tty.Terminal.boot fun _ => 0) []) capital :=
  (shiftExact_iff_repeatsHeld (initKeyboard_run _ _) capital_stream).mpr
    (repeatsHeld_of_single (by decide))

/-- A shift key that is repeated once and let go still counts as pressed. -/
theorem repeated_shift_stays :
    Stream bothMapped [.press 0x2a, .again 0x2a, .release 0x2a] ∧
      ∃ start, initKeyboard (Keyboard.boot (Tty.Terminal.boot fun _ => 0) []) = .ok () start ∧
        ¬ ShiftExact start [.press 0x2a, .again 0x2a, .release 0x2a] := by
  have shiftKey : (0x2a : UInt8) ∈ bothMapped := Or.inl (by decide)
  have first : Stream bothMapped [.press 0x2a] := .snoc .nil shiftKey (by decide)
  have second : Stream bothMapped [.press 0x2a, .again 0x2a] := .snoc first shiftKey (by decide)
  refine ⟨.snoc second shiftKey (by decide), _, initKeyboard_run _ _, fun tracked => ?_⟩
  obtain ⟨s, run, positive, _⟩ := tracked _ List.prefix_rfl
  have counted : typed [.press 0x2a, .again 0x2a, .release 0x2a]
      (Keyboard.ready (Tty.Terminal.boot fun _ => 0) []) =
        .ok () { Keyboard.ready (Tty.Terminal.boot fun _ => 0) [] with shift := 1 } := rfl
  cases run.symm.trans counted
  exact absurd (positive.mp (by decide)) (by decide)

end Exact

/-! ## Letters -/

/-- A lower case letter. -/
def IsLetter (c : UInt8) : Prop := 97 ≤ c ∧ c ≤ 122

instance : DecidablePred IsLetter := fun c => inferInstanceAs (Decidable (97 ≤ c ∧ c ≤ 122))

/-- The letter of a key, upper case when a shift key is held. -/
def letterOf (past : List KeyEvent) (key : UInt8) : UInt8 :=
  if ShiftHeld past then initialKeymap .normal key - 32 else initialKeymap .normal key

/-- No event repeats a key. -/
def NoRepeats (events : List KeyEvent) : Prop := ∀ event ∈ events, ∀ key, event ≠ .again key

/-- Every call of the handler returns, and one for a letter key prints its letter. -/
def LettersTyped (start : Keyboard) (events : List KeyEvent) : Prop :=
  ∀ past event, past ++ [event] <+: events →
    ∃ s after, typed past start = .ok () s ∧ keyboardHandler event.scanCode s = .ok () after ∧
      ∀ key, event = .press key → IsLetter (initialKeymap .normal key) →
        Tty.terminalPutchar (letterOf past key) s.terminal = .ok () after.terminal

/-- The key of `U` is never pressed while a shift key is held. -/
def NoCapitalU (events : List KeyEvent) : Prop :=
  ∀ past, past ++ [.press 0x16] <+: events → ¬ ShiftHeld past

section Letters

variable {events past : List KeyEvent} {event : KeyEvent} {start s : Keyboard} {key : UInt8}

theorem snoc_prefix_snoc {first : List KeyEvent} {other : KeyEvent} :
    first ++ [other] <+: past ++ [event] ↔
      (first = past ∧ other = event) ∨ first ++ [other] <+: past := by
  simp [List.prefix_concat_iff]

/-- Every key but that of `U` has a character in both rows. -/
theorem mapped_shifted (known : key ∈ normalMapped) (notShift : ¬ IsShift key)
    (notU : key ≠ 0x16) (row : Modifier) : initialKeymap row key ≠ 0 := by
  have all : (normalCodes.all fun code => decide (¬ IsShift code → code ≠ 0x16 →
      initialKeymap .normal code ≠ 0 ∧ initialKeymap .shifted code ≠ 0)) = true := by decide
  obtain ⟨normal, shifted⟩ := of_normalCodes all known notShift notU
  cases row
  · exact normal
  · exact shifted

theorem letter_notShift (known : key ∈ normalMapped)
    (letter : IsLetter (initialKeymap .normal key)) : ¬ IsShift key := by
  have all : (normalCodes.all fun code =>
      decide (IsLetter (initialKeymap .normal code) → ¬ IsShift code)) = true := by decide
  exact of_normalCodes all known letter

/-- Every letter but `U` has its capital in the other row. -/
theorem capital_letter (known : key ∈ normalMapped) (notU : key ≠ 0x16)
    (letter : IsLetter (initialKeymap .normal key)) :
    initialKeymap .shifted key = initialKeymap .normal key - 32 := by
  have all : (normalCodes.all fun code => decide (code ≠ 0x16 →
      IsLetter (initialKeymap .normal code) →
        initialKeymap .shifted code = initialKeymap .normal code - 32)) = true := by decide
  exact of_normalCodes all known notU letter

/-- Without repeats the row of capitals is used exactly while a shift key is held. -/
theorem rowAfter_of_single (single : NoRepeats past) :
    shiftCount past < 2 ^ 31 ∧
      rowAfter past = if ShiftHeld past then Modifier.shifted else Modifier.normal := by
  have none : shiftRepeats past = 0 := by
    refine shiftRepeats_of_single fun event member repeated => ?_
    cases event with
    | press key => exact repeated
    | again key => exact single _ member key rfl
    | release key => exact repeated
  have two : heldShifts past ≤ 2 := heldShifts_le_two
  have sum : shiftCount past = heldShifts past := by rw [shiftCount, none, Nat.add_zero]
  refine ⟨by omega, ?_⟩
  simp only [rowAfter, sum, shiftHeld_iff]

/-- A key other than `U` under shift has a character, and a letter key its letter. -/
theorem character_of_single (single : NoRepeats past) (known : key ∈ normalMapped)
    (notShift : ¬ IsShift key) (small : key = 0x16 → ¬ ShiftHeld past) :
    initialKeymap (rowAfter past) key ≠ 0 ∧
      (IsLetter (initialKeymap .normal key) →
        initialKeymap (rowAfter past) key = letterOf past key) := by
  rw [(rowAfter_of_single single).2, letterOf]
  by_cases held : ShiftHeld past
  · have notU : key ≠ 0x16 := fun isU => small isU held
    rw [if_pos held, if_pos held]
    exact ⟨mapped_shifted known notShift notU .shifted,
      fun letter => capital_letter known notU letter⟩
  · rw [if_neg held, if_neg held]
    exact ⟨known.resolve_left notShift, fun _ => rfl⟩

/-- An event is handled unless it is `U` under shift, and a letter key prints its letter. -/
theorem Counted.types (counted : Counted past s) (single : NoRepeats past)
    (known : event.key ∈ normalMapped) (possible : event.Possible (heldAfter past))
    (once : ∀ key, event ≠ .again key) (small : event = .press 0x16 → ¬ ShiftHeld past) :
    ∃ after, keyboardHandler event.scanCode s = .ok () after ∧
      Counted (past ++ [event]) after ∧
        ∀ key, event = .press key → IsLetter (initialKeymap .normal key) →
          Tty.terminalPutchar (letterOf past key) s.terminal = .ok () after.terminal := by
  have bounded := (rowAfter_of_single single).1
  by_cases isShift : IsShift event.key
  · obtain ⟨after, call, next⟩ := counted.handle_shift bounded isShift possible
    refine ⟨after, call, next, ?_⟩
    rintro key rfl letter
    exact absurd isShift (letter_notShift known letter)
  · have count : shiftCount (past ++ [event]) = shiftCount past := shiftCount_other isShift
    cases event with
    | press key =>
        obtain ⟨mapped, same⟩ := character_of_single single known isShift
          fun isU => small (congrArg KeyEvent.press isU)
        obtain ⟨terminal, printed, call⟩ :=
          counted.handle_mapped bounded known isShift mapped
        refine ⟨_, call, ⟨counted.keymap, ?_⟩, ?_⟩
        · rw [count, ← counted.shift]
        · rintro _ ⟨⟩ letter
          exact same letter ▸ printed
    | again key => exact absurd rfl (once key)
    | release key =>
        refine ⟨s, ?_, ⟨counted.keymap, ?_⟩, fun _ same => nomatch same⟩
        · exact (congrFun (keyboardHandler_release known) s).trans
            (processKeyRelease_other known isShift)
        · rw [count, ← counted.shift]

/-- `U` under shift hangs. -/
theorem Counted.hangs (counted : Counted past s) (single : NoRepeats past)
    (held : ShiftHeld past) : ∃ after, keyboardHandler 0x16 s = .error .endless after := by
  obtain ⟨bounded, row⟩ := rowAfter_of_single single
  have known : (0x16 : UInt8) ∈ normalMapped := Or.inr (by decide)
  have unmapped : s.keymap (rowAfter past) 0x16 = 0 := by
    rw [counted.keymap, row, if_pos held]
    decide
  rw [keyboardHandler_press known]
  exact processKeyPress_unmapped (by decide) (counted.row bounded) unmapped

theorem NoRepeats.of_prefix (single : NoRepeats events) (earlier : past <+: events) :
    NoRepeats past :=
  fun event member => single event (earlier.subset member)

theorem lettersTyped_snoc :
    LettersTyped start (past ++ [event]) ↔ LettersTyped start past ∧
      ∃ s after, typed past start = .ok () s ∧ keyboardHandler event.scanCode s = .ok () after ∧
        ∀ key, event = .press key → IsLetter (initialKeymap .normal key) →
          Tty.terminalPutchar (letterOf past key) s.terminal = .ok () after.terminal := by
  simp only [LettersTyped, snoc_prefix_snoc, or_imp, forall_and]
  constructor
  · rintro ⟨last, earlier⟩
    exact ⟨earlier, last past event ⟨rfl, rfl⟩⟩
  · rintro ⟨earlier, last⟩
    refine ⟨?_, earlier⟩
    rintro _ _ ⟨rfl, rfl⟩
    exact last

theorem noCapitalU_snoc :
    NoCapitalU (past ++ [event]) ↔
      NoCapitalU past ∧ (event = .press 0x16 → ¬ ShiftHeld past) := by
  simp only [NoCapitalU, snoc_prefix_snoc, or_imp, forall_and]
  constructor
  · rintro ⟨last, earlier⟩
    exact ⟨earlier, fun isU => last past ⟨rfl, isU.symm⟩⟩
  · rintro ⟨earlier, last⟩
    refine ⟨?_, earlier⟩
    rintro _ ⟨rfl, isU⟩
    exact last isU.symm

theorem noCapitalU_of_notMem (absent : .press 0x16 ∉ events) : NoCapitalU events :=
  fun _ earlier => absurd (earlier.subset (by simp)) absent

theorem Stream.types (stream : Stream normalMapped events) (single : NoRepeats events)
    (absent : NoCapitalU events) (ready : Counted [] start) :
    ∃ s, typed events start = .ok () s ∧ Counted events s := by
  induction stream with
  | nil => exact ⟨start, rfl, ready⟩
  | snoc stream known possible ih =>
      have earlier := single.of_prefix (List.prefix_append _ _)
      obtain ⟨absent, small⟩ := noCapitalU_snoc.mp absent
      obtain ⟨s, run, counted⟩ := ih earlier absent
      obtain ⟨after, call, next, _⟩ :=
        counted.types earlier known possible (single _ (by simp)) small
      exact ⟨after, typed_snoc_ok_iff.mpr ⟨s, run, call⟩, next⟩

/-- Without repeats every call returns and every letter key prints its letter exactly when
`U` is not pressed with a shift key held. -/
theorem lettersTyped_iff_noCapitalU {terminal : Tty.Terminal} {serial : List LogLine}
    (started : initKeyboard (Keyboard.boot terminal serial) = .ok () start)
    (stream : Stream normalMapped events) (single : NoRepeats events) :
    LettersTyped start events ↔ NoCapitalU events := by
  cases started.symm.trans (initKeyboard_run terminal serial)
  have ready := counted_nil terminal serial
  induction stream with
  | nil => simp [LettersTyped, NoCapitalU]
  | snoc stream known possible ih =>
      have earlier := single.of_prefix (List.prefix_append _ _)
      refine (lettersTyped_snoc.trans (and_congr_left fun _ => ih earlier)).trans
        (Iff.trans (and_congr_right fun absent => ?_) noCapitalU_snoc.symm)
      obtain ⟨s, run, counted⟩ := stream.types earlier absent ready
      constructor
      · rintro ⟨_, after, returned, call, _⟩ rfl held
        cases returned.symm.trans run
        obtain ⟨_, hung⟩ := counted.hangs earlier held
        exact nomatch hung.symm.trans call
      · intro small
        obtain ⟨after, call, _, letters⟩ :=
          counted.types earlier known possible (single _ (by simp)) small
        exact ⟨s, after, run, call, letters⟩

theorem lettersTyped_iff_noCapitalU_capital :
    LettersTyped (Keyboard.ready (Tty.Terminal.boot fun _ => 0) []) capital := by
  have known : Stream normalMapped capital := capital_stream.mono bothMapped_subset
  refine (lettersTyped_iff_noCapitalU (initKeyboard_run _ _) known ?_).mpr ?_
  · simp [NoRepeats, capital]
  · exact noCapitalU_of_notMem (by decide)

/-- The kernel hangs when `U` is pressed with a shift key held. -/
theorem capitalU_hangs :
    Stream normalMapped [.press 0x2a, .press 0x16] ∧ NoRepeats [.press 0x2a, .press 0x16] ∧
      ∃ start, initKeyboard (Keyboard.boot (Tty.Terminal.boot fun _ => 0) []) = .ok () start ∧
        ¬ LettersTyped start [.press 0x2a, .press 0x16] := by
  have first : Stream normalMapped [.press 0x2a] := .snoc .nil (Or.inl (by decide)) (by decide)
  have second : Stream normalMapped [.press 0x2a, .press 0x16] :=
    .snoc first (Or.inr (by decide)) (by decide)
  have single : NoRepeats [.press 0x2a, .press 0x16] := by simp [NoRepeats]
  refine ⟨second, single, _, initKeyboard_run _ _, fun typed => ?_⟩
  have ready := counted_nil (Tty.Terminal.boot fun _ => 0) []
  have earlier : NoRepeats [.press 0x2a] := single.of_prefix (by decide)
  obtain ⟨s, run, counted⟩ := first.types earlier (noCapitalU_of_notMem (by decide)) ready
  obtain ⟨_, hung⟩ := counted.hangs earlier (by decide)
  obtain ⟨_, after, returned, call, _⟩ := typed [.press 0x2a] (.press 0x16) List.prefix_rfl
  cases returned.symm.trans run
  exact nomatch hung.symm.trans call

end Letters

end TorchOS.Keys
