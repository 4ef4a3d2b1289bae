import TorchOS.Keyboard
import TorchOS.Text

/-!
# From keys to the screen

What is typed after `init_terminal` and `init_keyboard` is what video memory shows: each
key prints when it goes down and again while it is held, in the row of `keymap` that the
held shift keys select, and the release codes print nothing.
-/

namespace TorchOS.Keys

open Base Base.Program

/-- The row of `keymap` for the shift keys that are held. -/
def heldRow (past : List KeyEvent) : Modifier := if ShiftHeld past then .shifted else .normal

/-- The character an event prints. -/
def KeyEvent.character (past : List KeyEvent) : KeyEvent → Option UInt8
  | .press key => if IsShift key then none else some (initialKeymap (heldRow past) key)
  | .again key => if IsShift key then none else some (initialKeymap (heldRow past) key)
  | .release _ => none

/-- The text of some events that come after others. -/
def textFrom (past : List KeyEvent) : List KeyEvent → List UInt8
  | [] => []
  | event :: rest => (event.character past).toList ++ textFrom (past ++ [event]) rest

/-- The text of a stream of events. -/
def textOf (events : List KeyEvent) : List UInt8 := textFrom [] events

/-- The code of `U` going down, or of its repeats, does not come while a shift key is
held: it has no character there. -/
def NoShiftedU (events : List KeyEvent) : Prop :=
  ∀ past event, past ++ [event] <+: events → event.scanCode = 0x16 → ¬ ShiftHeld past

section Text

variable {past events : List KeyEvent} {event : KeyEvent} {key : UInt8}

theorem textFrom_snoc :
    textFrom past (events ++ [event]) =
      textFrom past events ++ (event.character (past ++ events)).toList := by
  induction events generalizing past with
  | nil => simp [textFrom]
  | cons first events ih => simp [textFrom, ih]

theorem textOf_snoc :
    textOf (events ++ [event]) = textOf events ++ (event.character events).toList := by
  simp [textOf, textFrom_snoc]

theorem length_textOf_le : (textOf events).length ≤ events.length := by
  induction events using List.reverseRecOn with
  | nil => exact Nat.le_refl _
  | append_singleton events event ih =>
      have one : (event.character events).toList.length ≤ 1 := by
        cases event.character events <;> simp
      rw [textOf_snoc, List.length_append, List.length_append, List.length_singleton]
      omega

theorem noShiftedU_snoc :
    NoShiftedU (past ++ [event]) ↔
      NoShiftedU past ∧ (event.scanCode = 0x16 → ¬ ShiftHeld past) := by
  simp only [NoShiftedU, snoc_prefix_snoc, or_imp, forall_and]
  constructor
  · rintro ⟨last, earlier⟩
    exact ⟨earlier, last past event ⟨rfl, rfl⟩⟩
  · rintro ⟨earlier, last⟩
    refine ⟨?_, earlier⟩
    rintro _ _ ⟨rfl, rfl⟩
    exact last

/-- While no shift key was repeated the handler uses the row of the held shift keys. -/
theorem rowAfter_eq_heldRow (single : shiftRepeats past = 0) :
    shiftCount past < 2 ^ 31 ∧ rowAfter past = heldRow past := by
  have two : heldShifts past ≤ 2 := heldShifts_le_two
  have sum : shiftCount past = heldShifts past := by rw [shiftCount, single, Nat.add_zero]
  refine ⟨by omega, ?_⟩
  simp only [rowAfter, heldRow, sum, shiftHeld_iff]

/-- The codes of a key that goes down or is held have a character, but for `U` under
shift. -/
theorem heldRow_mapped (known : key ∈ normalMapped) (notShift : ¬ IsShift key)
    (small : key = 0x16 → ¬ ShiftHeld past) : initialKeymap (heldRow past) key ≠ 0 := by
  by_cases held : ShiftHeld past
  · exact mapped_shifted known notShift (fun isU => small isU held) _
  · rw [heldRow, if_neg held]
    exact known.resolve_left notShift

end Text

/-- The terminal as far as the text stays below the kernel. -/
def Displays (mem : Bytes) (text : List UInt8) (terminal : Tty.Terminal) : Prop :=
  text.length < 2 ^ 32 → Tty.StaysBelow text → Tty.Placed mem text terminal

theorem Displays.putchar {mem : Bytes} {text : List UInt8} {terminal after : Tty.Terminal}
    {c : UInt8} (displays : Displays mem text terminal)
    (printed : Tty.terminalPutchar c terminal = .ok () after) :
    Displays mem (text ++ [c]) after := by
  intro short below
  rw [List.length_append, List.length_singleton] at short
  have placed := displays (by omega) (below.of_prefix (List.prefix_append _ _))
  obtain ⟨after', printed', shown⟩ := placed.putchar short below.last
  cases printed'.symm.trans printed
  exact shown

section Events

variable {mem : Bytes} {past events : List KeyEvent} {event : KeyEvent} {s start : Keyboard}
  {key : UInt8}

/-- A code that stands for a character prints it. -/
theorem Counted.prints (counted : Counted past s) (single : shiftRepeats past = 0)
    (known : key ∈ normalMapped) (notShift : ¬ IsShift key) (small : key = 0x16 → ¬ ShiftHeld past)
    (displays : Displays mem (textOf past) s.terminal) :
    ∃ terminal, keyboardHandler key s = .ok () { s with terminal := terminal } ∧
      Displays mem (textOf past ++ [initialKeymap (heldRow past) key]) terminal := by
  obtain ⟨bounded, row⟩ := rowAfter_eq_heldRow single
  have mapped := heldRow_mapped known notShift small
  rw [← row] at mapped ⊢
  obtain ⟨terminal, printed, call⟩ := counted.handle_mapped bounded known notShift mapped
  exact ⟨terminal, call, displays.putchar printed⟩

/-- The terminal is left alone by the codes of shift keys. -/
theorem handle_shift_terminal {after : Keyboard} (known : event.key ∈ normalMapped)
    (isShift : IsShift event.key) (returned : keyboardHandler event.scanCode s = .ok () after) :
    after.terminal = s.terminal := by
  cases event with
  | press key =>
      have run := (congrFun (keyboardHandler_press known) s).trans (processKeyPress_shift isShift)
      cases run.symm.trans returned
      rfl
  | again key =>
      have run := (congrFun (keyboardHandler_press known) s).trans (processKeyPress_shift isShift)
      cases run.symm.trans returned
      rfl
  | release key =>
      have known : key ∈ normalMapped := known
      change keyboardHandler (key ||| 0x80) s = .ok () after at returned
      rw [keyboardHandler_release known, processKeyRelease, (codes known).2.2,
        if_pos (show IsShift key from isShift), bind_of_ok (update_run _ s),
        bind_of_ok (read_run _ _)] at returned
      split at returned
      · cases returned
      · cases returned
        rfl

/-- An event that is no `U` under shift is handled, and what it prints is displayed. -/
theorem Counted.displays (counted : Counted past s) (single : shiftRepeats past = 0)
    (known : event.key ∈ normalMapped) (possible : event.Possible (heldAfter past))
    (small : event.scanCode = 0x16 → ¬ ShiftHeld past)
    (displays : Displays mem (textOf past) s.terminal) :
    ∃ after, keyboardHandler event.scanCode s = .ok () after ∧
      Counted (past ++ [event]) after ∧
      Displays mem (textOf (past ++ [event])) after.terminal := by
  have bounded := (rowAfter_eq_heldRow single).1
  rw [textOf_snoc]
  by_cases isShift : IsShift event.key
  · obtain ⟨after, call, next⟩ := counted.handle_shift bounded isShift possible
    have silent : event.character past = none := by
      cases event with
      | press key => exact if_pos isShift
      | again key => exact if_pos isShift
      | release key => rfl
    refine ⟨after, call, next, ?_⟩
    rw [silent, handle_shift_terminal known isShift call]
    simpa using displays
  · have count : shiftCount (past ++ [event]) = shiftCount past := shiftCount_other isShift
    have shift : s.shift = Int32.ofNat (shiftCount (past ++ [event])) := by
      rw [count, counted.shift]
    cases event with
    | press key =>
        have isShift : ¬ IsShift key := isShift
        have known : key ∈ normalMapped := known
        obtain ⟨terminal, call, shown⟩ := counted.prints single known isShift small displays
        refine ⟨_, call, ⟨counted.keymap, shift⟩, ?_⟩
        simpa [KeyEvent.character, isShift] using shown
    | again key =>
        have isShift : ¬ IsShift key := isShift
        have known : key ∈ normalMapped := known
        obtain ⟨terminal, call, shown⟩ := counted.prints single known isShift small displays
        refine ⟨_, call, ⟨counted.keymap, shift⟩, ?_⟩
        simpa [KeyEvent.character, isShift] using shown
    | release key =>
        refine ⟨s, ?_, ⟨counted.keymap, shift⟩, ?_⟩
        · exact (congrFun (keyboardHandler_release known) s).trans
            (processKeyRelease_other known isShift)
        · simpa [KeyEvent.character] using displays

/-- `U` under shift hangs. -/
theorem Counted.hangs_of_single (counted : Counted past s) (single : shiftRepeats past = 0)
    (held : ShiftHeld past) : ∃ after, keyboardHandler 0x16 s = .error .endless after := by
  obtain ⟨bounded, row⟩ := rowAfter_eq_heldRow single
  have known : (0x16 : UInt8) ∈ normalMapped := Or.inr (by decide)
  have unmapped : s.keymap (rowAfter past) 0x16 = 0 := by
    rw [counted.keymap, row, heldRow, if_pos held]
    decide
  rw [keyboardHandler_press known]
  exact processKeyPress_unmapped (by decide) (counted.row bounded) unmapped

/-- A stream without `U` under shift is handled to its end. -/
theorem Stream.displays (stream : Stream normalMapped events)
    (single : ∀ event ∈ events, ¬ event.RepeatsShift) (absent : NoShiftedU events)
    (ready : Counted [] start) (blank : Displays mem [] start.terminal) :
    ∃ s, typed events start = .ok () s ∧ Counted events s ∧
      Displays mem (textOf events) s.terminal := by
  induction stream with
  | nil => exact ⟨start, rfl, ready, blank⟩
  | @snoc past event stream known possible ih =>
      have earlier : ∀ event ∈ past, ¬ event.RepeatsShift :=
        fun event member => single event (List.mem_append_left _ member)
      obtain ⟨absent, small⟩ := noShiftedU_snoc.mp absent
      obtain ⟨s, run, counted, shown⟩ := ih earlier absent
      obtain ⟨after, call, next, displayed⟩ :=
        counted.displays (shiftRepeats_of_single earlier) known possible small shown
      exact ⟨after, typed_snoc_ok_iff.mpr ⟨s, run, call⟩, next, displayed⟩

/-- A stream that is handled to its end has no `U` under shift. -/
theorem Stream.noShiftedU (stream : Stream normalMapped events)
    (single : ∀ event ∈ events, ¬ event.RepeatsShift) (ready : Counted [] start)
    (blank : Displays mem [] start.terminal) (returned : typed events start = .ok () s) :
    NoShiftedU events := by
  induction stream generalizing s with
  | nil =>
      intro past event earlier
      simp at earlier
  | @snoc past event stream known possible ih =>
      have earlier : ∀ event ∈ past, ¬ event.RepeatsShift :=
        fun event member => single event (List.mem_append_left _ member)
      obtain ⟨middle, before, call⟩ := typed_snoc_ok_iff.mp returned
      have absent := ih earlier before
      refine noShiftedU_snoc.mpr ⟨absent, fun isU held => ?_⟩
      obtain ⟨middle', before', counted, _⟩ := stream.displays earlier absent ready blank
      cases before'.symm.trans before
      obtain ⟨_, hung⟩ := counted.hangs_of_single (shiftRepeats_of_single earlier) held
      rw [isU] at call
      exact nomatch hung.symm.trans call

end Events

/-- Whatever is typed on the mapped keys without repeating a shift key, in any overlap of
keys and with repeats of the others, is handled to its end exactly when `U` sends no
code while a shift key is held, and video memory then shows the text typed, with the
shifted characters where a shift key was held and `Enter` beginning a new row. -/
theorem typing_shown {mem : Bytes} {terminal : Tty.Terminal} {serial : List LogLine}
    {start : Keyboard} {events : List KeyEvent}
    (cleared : Tty.initTerminal (Tty.Terminal.boot mem) = .ok () terminal)
    (started : initKeyboard (Keyboard.boot terminal serial) = .ok () start)
    (stream : Stream normalMapped events) (single : ∀ event ∈ events, ¬ event.RepeatsShift) :
    ((∃ s, typed events start = .ok () s) ↔ NoShiftedU events) ∧
      ∀ s, typed events start = .ok () s → events.length < 2 ^ 32 →
        Tty.StaysBelow (textOf events) → Tty.Placed mem (textOf events) s.terminal := by
  cases started.symm.trans (initKeyboard_run terminal serial)
  have ready := counted_nil terminal serial
  have blank : Displays mem [] (Keyboard.ready terminal serial).terminal :=
    fun _ _ => Tty.initTerminal_placed cleared
  have handled : ∀ s, typed events (Keyboard.ready terminal serial) = .ok () s →
      NoShiftedU events := fun s returned => stream.noShiftedU single ready blank returned
  refine ⟨⟨fun ⟨s, returned⟩ => handled s returned, fun absent => ?_⟩, ?_⟩
  · obtain ⟨s, returned, _⟩ := stream.displays single absent ready blank
    exact ⟨s, returned⟩
  · intro s returned short below
    obtain ⟨s', returned', _, shown⟩ :=
      stream.displays single (handled s returned) ready blank
    cases returned'.symm.trans returned
    exact shown (length_textOf_le.trans_lt short) below

/-- A capital letter reaches the screen. -/
theorem typing_shown_capital :
    ∃ terminal s, Tty.initTerminal (Tty.Terminal.boot fun _ => 0) = .ok () terminal ∧
      typed capital (Keyboard.ready terminal []) = .ok () s ∧
      Tty.Placed (fun _ => 0) [65] s.terminal := by
  obtain ⟨terminal, cleared, _⟩ := Tty.initTerminal_run fun _ => 0
  have known : Stream normalMapped capital := capital_stream.mono bothMapped_subset
  obtain ⟨handled, shown⟩ :=
    typing_shown cleared (initKeyboard_run terminal []) known (by decide)
  have absent : NoShiftedU capital := by
    intro past event earlier isU
    have member : event ∈ capital := earlier.subset (by simp)
    have noU : ∀ event ∈ capital, event.scanCode ≠ 0x16 := by decide
    exact absurd isU (noU event member)
  obtain ⟨s, returned⟩ := handled.mpr absent
  have text : textOf capital = [65] := by decide
  have below : Tty.StaysBelow (textOf capital) := by
    rw [text, Tty.StaysBelow, Tty.cellsBelowKernel_eq]
    decide
  exact ⟨terminal, s, cleared, returned, text ▸ shown s returned (by decide) below⟩

end TorchOS.Keys
