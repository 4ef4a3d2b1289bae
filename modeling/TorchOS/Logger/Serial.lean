import TorchOS.Base.Run
import TorchOS.Base.Uart
import Mathlib.Data.Fintype.Card
import Mathlib.Algebra.BigOperators.Group.Finset.Piecewise
import Mathlib.Algebra.Order.BigOperators.Group.Finset

/-!
# The serial port

`init_serial_com1`, and `put_serial` taken apart into its reads of the line status and its
write, where any number of contexts log at once: code that was interrupted while it logged,
the interrupt's handler, and tasks that were switched away. The port empties at its own pace.
-/

namespace TorchOS.Logger

open Base

/-! ## `logger.c` -/

def com1Base : UInt16 := 0x3F8

/-- `outb` and its port and byte. -/
structure SerialOut where
  port : UInt16
  data : UInt8

/-- `init_serial_com1` -/
def initSerialCom1 : List SerialOut :=
  [⟨com1Base + 1, 0x00⟩, ⟨com1Base + 3, 0x80⟩, ⟨com1Base + 0, 0x03⟩, ⟨com1Base + 1, 0x00⟩,
    ⟨com1Base + 3, 0x03⟩, ⟨com1Base + 2, 0xC7⟩, ⟨com1Base + 4, 0x0B⟩]

/-- What a byte at a port does to the transmitter. -/
def outSerial (uart : Uart) (out : SerialOut) : Uart :=
  uart.write (out.port - com1Base).toNat out.data

/-- The port after `init_serial_com1`. -/
def initLogger (uart : Uart) : Uart := initSerialCom1.foldl outSerial uart

/-- `is_transmit_empty`, where the line status has the bits `others` besides. -/
def isTransmitEmpty (others : UInt8) (uart : Uart) : UInt8 := uart.lineStatus others &&& 0x20

/-- Where a context is with its calls of `put_serial`: what it is still to send, and whether
it has found the transmitter empty for the first of it. -/
structure Sender where
  pending : List UInt8
  found : Bool

/-- The port and the contexts that log. -/
structure Sending (n : Nat) where
  uart : Uart
  senders : Fin n → Sender

/-- What can happen. -/
inductive SendEvent (n : Nat) where
  | log (context : Fin n) (bytes : List UInt8)
  | poll (context : Fin n)
  | out (context : Fin n) (byte : UInt8)
  | shift

/-- One step: a context that has sent everything logs more, reads the line status once, or
writes the byte it has found room for; or the transmitter sends a byte. Any context can be
next. -/
inductive SendStep {n : Nat} : Sending n → SendEvent n → Sending n → Prop where
  | log {s} {context : Fin n} {bytes : List UInt8} (idle : (s.senders context).pending = []) :
      SendStep s (.log context bytes)
        { s with senders := Function.update s.senders context ⟨bytes, false⟩ }
  | poll {s} {context : Fin n} {byte : UInt8} {rest : List UInt8} {others : UInt8}
      (pending : (s.senders context).pending = byte :: rest)
      (searching : (s.senders context).found = false) :
      SendStep s (.poll context)
        { s with
          senders := Function.update s.senders context
            ⟨byte :: rest, isTransmitEmpty others s.uart != 0⟩ }
  | out {s} {context : Fin n} {byte : UInt8} {rest : List UInt8}
      (pending : (s.senders context).pending = byte :: rest)
      (found : (s.senders context).found = true) :
      SendStep s (.out context byte)
        { uart := outSerial s.uart ⟨com1Base, byte⟩
          senders := Function.update s.senders context ⟨rest, false⟩ }
  | shift {s} : SendStep s .shift { s with uart := s.uart.shift }

/-- The logger has been initialized, and no context logs yet. -/
def quiet (n : Nat) (uart : Uart) : Sending n where
  uart := initLogger uart
  senders := fun _ => ⟨[], false⟩

/-- The bytes written to the port. -/
def written {n : Nat} (events : List (SendEvent n)) : List UInt8 :=
  events.filterMap fun event => match event with
    | .out _ byte => some byte
    | _ => none

/-- Those that one context wrote. -/
def writtenBy {n : Nat} (context : Fin n) (events : List (SendEvent n)) : List UInt8 :=
  events.filterMap fun event => match event with
    | .out other byte => if other = context then some byte else none
    | _ => none

/-- What one context logged. -/
def loggedBy {n : Nat} (context : Fin n) (events : List (SendEvent n)) : List UInt8 :=
  events.flatMap fun event => match event with
    | .log other bytes => if other = context then bytes else []
    | _ => []

/-! ## The port -/

section Port

variable {uart : Uart} {value others : UInt8}

/-- All but the first write, which may reach the divisor. -/
theorem initSerialCom1_tail : initSerialCom1.tail.foldl outSerial uart =
    { interruptEnable := uart.interruptEnable
      lineControl := 0x03
      divisorLow := 0x03
      divisorHigh := 0x00
      fifoEnabled := true
      modemControl := 0x0B
      held := []
      line := uart.line } := by
  have enables : (199 : UInt8) &&& 1 ≠ 0 := by decide
  have clears : (199 : UInt8) &&& 4 ≠ 0 := by decide
  simp [initSerialCom1, outSerial, com1Base, Uart.write, Uart.divisorAccess, Uart.fifoControl,
    enables, clears]

/-- However the port was set up, it ends up at 38400 baud with eight data bits, no parity and
one stop bit, and its FIFO on and empty. Its interrupts stay as they are where the divisor
was being set. -/
theorem initLogger_eq : initLogger uart =
    { interruptEnable := if uart.divisorAccess then uart.interruptEnable else 0
      lineControl := 0x03
      divisorLow := 0x03
      divisorHigh := 0x00
      fifoEnabled := true
      modemControl := 0x0B
      held := []
      line := uart.line } := by
  have first : initLogger uart = initSerialCom1.tail.foldl outSerial
      (if uart.divisorAccess then { uart with divisorHigh := 0 }
        else { uart with interruptEnable := 0 }) := rfl
  rw [first, initSerialCom1_tail]
  split <;> rfl

/-- `is_transmit_empty` tells whether the transmitter holds no byte. -/
theorem isTransmitEmpty_iff : (isTransmitEmpty others uart != 0) = uart.held.isEmpty := by
  rw [isTransmitEmpty, Uart.lineStatus_empty]
  cases uart.held.isEmpty <;> rfl

/-- The port sends with its FIFO. -/
structure Buffers (uart : Uart) : Prop where
  access : uart.divisorAccess = false
  fifo : uart.fifoEnabled = true

theorem initLogger_buffers : Buffers (initLogger uart) := by
  rw [initLogger_eq]
  exact ⟨by simp only [Uart.divisorAccess]; decide, rfl⟩

theorem Buffers.shift (buffers : Buffers uart) : Buffers uart.shift := by
  rw [Uart.shift]
  split
  · exact buffers
  · exact ⟨buffers.access, buffers.fifo⟩

theorem Buffers.capacity (buffers : Buffers uart) : uart.capacity = 16 :=
  if_pos buffers.fifo

theorem Buffers.out (buffers : Buffers uart) :
    outSerial uart ⟨com1Base, value⟩ = uart.transmit value := by
  simp [outSerial, com1Base, Uart.write, buffers.access]

/-- A byte that the FIFO has room for. -/
theorem Buffers.out_room (buffers : Buffers uart) (room : uart.held.length < 16) :
    outSerial uart ⟨com1Base, value⟩ = { uart with held := uart.held ++ [value] } := by
  rw [buffers.out]
  exact Uart.transmit_of_lt (by rwa [buffers.capacity])

theorem Buffers.out_full (buffers : Buffers uart) (full : 16 ≤ uart.held.length) :
    outSerial uart ⟨com1Base, value⟩ = uart := by
  rw [buffers.out]
  exact Uart.transmit_of_full (by rw [buffers.capacity]; omega) buffers.fifo

theorem Buffers.of_out (buffers : Buffers uart) (value : UInt8) :
    Buffers (outSerial uart ⟨com1Base, value⟩) := by
  by_cases room : uart.held.length < 16
  · rw [buffers.out_room room]
    exact ⟨buffers.access, buffers.fifo⟩
  · rw [buffers.out_full (by omega)]
    exact buffers

end Port

/-! ## The contexts -/

section Contexts

variable {n : Nat} {s after : Sending n} {event : SendEvent n} {events : List (SendEvent n)}
  {origin : List UInt8} {context other : Fin n}

/-- How many contexts have found room and not used it. -/
def ready (senders : Fin n → Sender) : Nat := ∑ context, (senders context).found.toNat

theorem ready_update (senders : Fin n → Sender) (context : Fin n) (sender : Sender) :
    ready (Function.update senders context sender) + (senders context).found.toNat =
      ready senders + sender.found.toNat := by
  have counts : (fun other => (Function.update senders context sender other).found.toNat) =
      Function.update (fun other => (senders other).found.toNat) context sender.found.toNat := by
    funext other
    by_cases same : other = context
    · simp [same]
    · simp [same]
  have whole := Finset.add_sum_erase Finset.univ (fun other => (senders other).found.toNat)
    (Finset.mem_univ context)
  rw [ready, ready, counts, Finset.sum_update_of_mem (Finset.mem_univ context),
    Finset.sdiff_singleton_eq_erase, ← whole]
  omega

/-- No more contexts than there are have found room, and not one of the others. -/
theorem ready_lt (senders : Fin n → Sender) (searching : (senders context).found = false) :
    ready senders < n := by
  have whole := Finset.add_sum_erase Finset.univ (fun other => (senders other).found.toNat)
    (Finset.mem_univ context)
  have few : ∑ other ∈ Finset.univ.erase context, (senders other).found.toNat ≤
      ∑ _ ∈ Finset.univ.erase context, 1 :=
    Finset.sum_le_sum fun other _ => Bool.toNat_le _
  rw [← Finset.card_eq_sum_ones, Finset.card_erase_of_mem (Finset.mem_univ context),
    Finset.card_univ, Fintype.card_fin] at few
  have some : 0 < n := context.pos
  rw [ready, ← whole, searching, Bool.toNat_false]
  omega

/-- Each context that has found room still has it, whatever the others do; every byte written
is on the line or held, in order; and each context is where its own log leaves it. -/
structure Sound (origin : List UInt8) (events : List (SendEvent n)) (s : Sending n) : Prop where
  buffers : Buffers s.uart
  room : s.uart.held.length + ready s.senders ≤ n
  order : ∀ context, writtenBy context events ++ (s.senders context).pending =
    loggedBy context events
  whole : n ≤ 16 → s.uart.line ++ s.uart.held = origin ++ written events

theorem sound_quiet (uart : Uart) : Sound uart.line [] (quiet n uart) where
  buffers := initLogger_buffers
  room := by simp [quiet, initLogger_eq, ready]
  order := fun context => rfl
  whole := fun _ => by simp [quiet, initLogger_eq, written]

theorem writtenBy_snoc (context : Fin n) :
    writtenBy context (events ++ [event]) =
      writtenBy context events ++ writtenBy context [event] :=
  List.filterMap_append

theorem loggedBy_snoc (context : Fin n) :
    loggedBy context (events ++ [event]) = loggedBy context events ++ loggedBy context [event] :=
  List.flatMap_append

theorem written_snoc : written (events ++ [event]) = written events ++ written [event] :=
  List.filterMap_append

/-- Each step keeps that. -/
theorem SendStep.sound (step : SendStep s event after) (sound : Sound origin events s) :
    Sound origin (events ++ [event]) after := by
  have room := sound.room
  cases step with
  | @log context bytes idle =>
      have counted := ready_update s.senders context ⟨bytes, false⟩
      constructor
      case buffers => exact sound.buffers
      case room =>
        simp only [Bool.toNat_false] at counted ⊢
        omega
      case order =>
        intro other
        rw [writtenBy_snoc, loggedBy_snoc, ← sound.order other]
        by_cases same : context = other
        · subst same
          simp [writtenBy, loggedBy, idle]
        · simp [writtenBy, loggedBy, Function.update_of_ne (Ne.symm same), same]
      case whole =>
        intro few
        rw [written_snoc, ← List.append_assoc, ← sound.whole few]
        exact (List.append_nil _).symm
  | @poll context byte rest others pending searching =>
      have counted := ready_update s.senders context
        ⟨byte :: rest, isTransmitEmpty others s.uart != 0⟩
      rw [isTransmitEmpty_iff] at counted ⊢
      constructor
      case buffers => exact sound.buffers
      case room =>
        have oneLess := ready_lt s.senders searching
        cases empty : s.uart.held with
        | nil =>
            simp only [empty, searching, List.isEmpty_nil, Bool.toNat_true, Bool.toNat_false,
              List.length_nil] at counted ⊢
            omega
        | cons first held =>
            simp only [empty, searching, List.isEmpty_cons, Bool.toNat_false,
              List.length_cons] at counted room ⊢
            omega
      case order =>
        intro other
        rw [writtenBy_snoc, loggedBy_snoc, ← sound.order other]
        by_cases same : context = other
        · subst same
          simp [writtenBy, loggedBy, pending]
        · simp [writtenBy, loggedBy, Function.update_of_ne (Ne.symm same)]
      case whole =>
        intro few
        rw [written_snoc, ← List.append_assoc, ← sound.whole few]
        exact (List.append_nil _).symm
  | @out context byte rest pending found =>
      have counted := ready_update s.senders context ⟨rest, false⟩
      rw [found, Bool.toNat_true, Bool.toNat_false] at counted
      constructor
      case buffers => exact sound.buffers.of_out byte
      case room =>
        by_cases free : s.uart.held.length < 16
        · rw [sound.buffers.out_room free]
          simp only [List.length_append, List.length_singleton]
          omega
        · rw [sound.buffers.out_full (by omega)]
          simp only
          omega
      case order =>
        intro other
        rw [writtenBy_snoc, loggedBy_snoc, ← sound.order other]
        by_cases same : context = other
        · subst same
          simp [writtenBy, loggedBy, pending]
        · simp [writtenBy, loggedBy, Function.update_of_ne (Ne.symm same), same]
      case whole =>
        intro few
        have free : s.uart.held.length < 16 := by omega
        rw [written_snoc, ← List.append_assoc, ← sound.whole few, sound.buffers.out_room free,
          List.append_assoc]
        rfl
  | shift =>
      constructor
      case buffers => exact sound.buffers.shift
      case room =>
        rw [Uart.shift]
        cases held : s.uart.held with
        | nil => simpa [held] using room
        | cons byte rest =>
            simp only [held, List.length_cons] at room ⊢
            omega
      case order =>
        intro other
        rw [writtenBy_snoc, loggedBy_snoc, ← sound.order other]
        simp [writtenBy, loggedBy]
      case whole =>
        intro few
        rw [written_snoc, ← List.append_assoc, ← sound.whole few, Uart.shift]
        cases held : s.uart.held with
        | nil => simp [held, written]
        | cons byte rest => simp [written]

theorem sound_of_run {uart : Uart} (run : Reaches SendStep (quiet n uart) events s) :
    Sound uart.line events s := by
  induction run with
  | refl => exact sound_quiet uart
  | snoc _ step ih => exact step.sound ih

/-! ## Too many contexts -/

/-- Contexts read the line status one after another before any of them writes. -/
theorem all_find (uart : Uart) : ∀ count ≤ n, ∃ events s,
    Reaches SendStep (quiet n uart) events s ∧ written events = [] ∧
      s.uart = initLogger uart ∧
      (∀ context, context.val < count → s.senders context = ⟨[0], true⟩) ∧
      ∀ context, count ≤ context.val → s.senders context = ⟨[], false⟩ := by
  intro count
  induction count with
  | zero =>
      intro _
      exact ⟨[], quiet n uart, .refl, rfl, rfl, fun _ below => absurd below (by omega),
        fun _ _ => rfl⟩
  | succ count ih =>
      intro fits
      obtain ⟨events, s, run, none, port, before, behind⟩ := ih (by omega)
      let context : Fin n := ⟨count, fits⟩
      let logging : Sending n :=
        { s with senders := Function.update s.senders context ⟨[0], false⟩ }
      have logs : SendStep s (.log context [0]) logging :=
        .log (by rw [behind context (Nat.le_refl count)])
      have here : logging.senders context = ⟨[0], false⟩ := Function.update_self _ _ _
      have head : (logging.senders context).pending = 0 :: [] := by rw [here]
      have searching : (logging.senders context).found = false := by rw [here]
      have polls : SendStep logging (.poll context)
          { logging with
            senders := Function.update logging.senders context
              ⟨[0], isTransmitEmpty 0 logging.uart != 0⟩ } := .poll head searching
      have empty : (isTransmitEmpty 0 logging.uart != 0) = true := by
        have port' : logging.uart = initLogger uart := port
        rw [isTransmitEmpty_iff, port', initLogger_eq]
        rfl
      rw [empty] at polls
      refine ⟨_, _, (run.snoc logs).snoc polls, ?_, port, fun other below => ?_,
        fun other above => ?_⟩
      · rw [written_snoc, written_snoc, none]
        rfl
      · by_cases same : other = context
        · rw [same]
          exact Function.update_self _ _ _
        · have earlier : other.val < count :=
            Nat.lt_of_le_of_ne (by omega) fun equal => same (Fin.ext equal)
          have kept : logging.senders other = s.senders other := Function.update_of_ne same _ _
          rw [← before other earlier, ← kept]
          exact Function.update_of_ne same _ _
      · have same : other ≠ context := fun equal => by
          have value := congrArg Fin.val equal
          change other.val = count at value
          omega
        have kept : logging.senders other = s.senders other := Function.update_of_ne same _ _
        rw [← behind other (by omega), ← kept]
        exact Function.update_of_ne same _ _

/-- Then they write before the port sends anything. -/
theorem all_write (uart : Uart) : ∀ count ≤ n, ∃ events s,
    Reaches SendStep (quiet n uart) events s ∧ (written events).length = count ∧
      Buffers s.uart ∧ s.uart.line = uart.line ∧ s.uart.held.length = min count 16 ∧
      ∀ context, count ≤ context.val → s.senders context = ⟨[0], true⟩ := by
  intro count
  induction count with
  | zero =>
      intro _
      obtain ⟨events, s, run, none, port, before, -⟩ := all_find uart n (Nat.le_refl n)
      refine ⟨events, s, run, by rw [none]; rfl, ?_, ?_, ?_, fun context _ =>
        before context context.isLt⟩
      · rw [port]
        exact initLogger_buffers
      · rw [port, initLogger_eq]
      · rw [port, initLogger_eq]
        rfl
  | succ count ih =>
      intro fits
      obtain ⟨events, s, run, sent, buffers, line, held, behind⟩ := ih (by omega)
      let context : Fin n := ⟨count, fits⟩
      have here := behind context (Nat.le_refl count)
      have head : (s.senders context).pending = 0 :: [] := by rw [here]
      have found : (s.senders context).found = true := by rw [here]
      have writes : SendStep s (.out context 0) _ := .out head found
      refine ⟨_, _, run.snoc writes, ?_, buffers.of_out 0, ?_, ?_, fun other above => ?_⟩
      · rw [written_snoc, List.length_append, sent]
        rfl
      · by_cases free : s.uart.held.length < 16
        · rw [buffers.out_room free]
          exact line
        · rw [buffers.out_full (by omega)]
          exact line
      · by_cases free : s.uart.held.length < 16
        · rw [buffers.out_room free]
          simp only [List.length_append, List.length_singleton]
          omega
        · rw [buffers.out_full (by omega)]
          simp only
          omega
      · have same : other ≠ context := fun equal => by
          have value := congrArg Fin.val equal
          change other.val = count at value
          omega
        rw [← behind other (by omega)]
        exact Function.update_of_ne same _ _

/-- The log is whole: what has been written is on the line or held in the order in which it
was written, and each context's own bytes are in the order in which it logged them. -/
def Whole (uart : Uart) (events : List (SendEvent n)) (s : Sending n) : Prop :=
  s.uart.line ++ s.uart.held = uart.line ++ written events ∧
    ∀ context, writtenBy context events ++ (s.senders context).pending = loggedBy context events

/-- Once `init_serial_com1` has run on a port that was set up in any way, sixteen contexts can
log at once, in any order of their steps, without losing a byte; seventeen cannot. -/
theorem whole_iff (n : Nat) (uart : Uart) :
    (∀ events s, Reaches SendStep (quiet n uart) events s → Whole uart events s) ↔ n ≤ 16 := by
  constructor
  · intro whole
    obtain ⟨events, s, run, sent, -, line, held, -⟩ := all_write (n := n) uart n (Nat.le_refl n)
    have lengths := congrArg List.length (whole events s run).1
    rw [List.length_append, List.length_append, line, held, sent] at lengths
    omega
  · intro few events s run
    have sound := sound_of_run run
    exact ⟨sound.whole few, sound.order⟩

end Contexts

end TorchOS.Logger
