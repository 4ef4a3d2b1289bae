import Mathlib.Tactic.Common

/-!
# A serial port's transmitter

The sending half of a 16550: the registers that set it up, the bytes it has accepted and
the bytes it has put on the line. With its FIFO off it holds one byte, with its FIFO on
sixteen. A byte that finds no room is lost: the FIFO drops it, and without the FIFO it takes
the place of the byte that was held. Receiving is left out.
-/

namespace Base

/-- A transmitter. `held` are the bytes that are accepted but not yet sent, oldest first. -/
structure Uart where
  interruptEnable : UInt8
  lineControl : UInt8
  divisorLow : UInt8
  divisorHigh : UInt8
  fifoEnabled : Bool
  modemControl : UInt8
  held : List UInt8
  line : List UInt8

namespace Uart

variable (uart : Uart) (value : UInt8)

/-- The first two registers are the divisor's. -/
def divisorAccess : Bool := uart.lineControl &&& 0x80 != 0

/-- How many bytes the transmitter holds. -/
def capacity : Nat := if uart.fifoEnabled then 16 else 1

/-- A byte to send. -/
def transmit : Uart :=
  if uart.held.length < uart.capacity then { uart with held := uart.held ++ [value] }
  else if uart.fifoEnabled then uart
  else { uart with held := [value] }

/-- The transmitter puts its oldest byte on the line. -/
def shift : Uart :=
  match uart.held with
  | [] => uart
  | byte :: rest => { uart with held := rest, line := uart.line ++ [byte] }

/-- The FIFO control register. Switching the FIFO empties it, as does its third bit. -/
def fifoControl : Uart :=
  let enabled := value &&& 0x01 != 0
  { uart with
    fifoEnabled := enabled
    held := if enabled != uart.fifoEnabled || value &&& 0x04 != 0 then [] else uart.held }

/-- A byte for the register at an offset. -/
def write (offset : Nat) (value : UInt8) (uart : Uart) : Uart :=
  match offset with
  | 0 => if uart.divisorAccess then { uart with divisorLow := value } else uart.transmit value
  | 1 =>
      if uart.divisorAccess then { uart with divisorHigh := value }
      else { uart with interruptEnable := value }
  | 2 => uart.fifoControl value
  | 3 => { uart with lineControl := value }
  | 4 => { uart with modemControl := value }
  | _ => uart

/-- The line status register: bit 5 is set when no byte is held, and the others are as the
receiver has them. -/
def lineStatus (others : UInt8) : UInt8 :=
  (others &&& 0xDF) ||| if uart.held.isEmpty then 0x20 else 0

variable {uart value}

theorem transmit_of_lt (room : uart.held.length < uart.capacity) :
    uart.transmit value = { uart with held := uart.held ++ [value] } :=
  if_pos room

theorem transmit_of_full (full : ¬ uart.held.length < uart.capacity)
    (enabled : uart.fifoEnabled = true) : uart.transmit value = uart := by
  rw [transmit, if_neg full, if_pos enabled]

theorem lineStatus_empty (others : UInt8) :
    uart.lineStatus others &&& 0x20 = if uart.held.isEmpty then 0x20 else 0 := by
  have split : ∀ bit : UInt8, ((others &&& 0xDF) ||| bit) &&& 0x20 = bit &&& 0x20 := by
    intro bit
    rw [← UInt8.toBitVec_inj]
    simp only [UInt8.toBitVec_and, UInt8.toBitVec_or, BitVec.and_or_distrib_right,
      BitVec.and_assoc]
    have none : (0xDF : UInt8).toBitVec &&& (0x20 : UInt8).toBitVec = 0 := by decide
    rw [none]
    simp
  rw [lineStatus, split]
  split <;> rfl

end Uart

end Base
