import TorchOS.Base.Watch
import TorchOS.Base.Numeral
import TorchOS.Lib.Strings

/-!
# Printing on the serial port

`print_serial` and the two routines for numbers, down to the bytes that `put_serial`
sends. A trace has those bytes, and the places where `logf` reads its format.
-/

namespace TorchOS.Logger

open Base Base.Program Lib

/-- What the logger does: a byte sent, or a byte of the format read. -/
inductive SerialEvent where
  | sent (byte : UInt8)
  | fetched (address : UInt32)
  deriving DecidableEq

/-- Logging code. -/
abbrev Logging := Program Halt (Watched Machine SerialEvent)

/-- The byte that an event sends. -/
def SerialEvent.byte? : SerialEvent → Option UInt8
  | .sent byte => some byte
  | .fetched _ => none

/-- The bytes sent, oldest first. -/
def sentBytes (events : List SerialEvent) : List UInt8 := events.filterMap SerialEvent.byte?

/-! ## Printing -/

/-- `put_serial`, once the port has room for the byte. -/
def putSerial (a : UInt8) : Logging Unit := watch fun _ => [.sent a]

/-- The loop of `print_serial`, from `i` on. Each test runs `strlen` anew. -/
def printSerialFrom (s : UInt32) : Nat → UInt32 → Logging Unit
  | 0, _ => halt .endless
  | fuel + 1, i => do
      let len ← unwatched (strlen s)
      if i < len then
        putSerial (← unwatched (getByte (s + i)))
        printSerialFrom s fuel (i + 1)
      else
        pure ()

/-- `print_serial` -/
def printSerial (s : UInt32) : Logging Unit := printSerialFrom s loopBound 0

/-- One round of the digit loop of `print_serial_unsigned_decimal`: the rest of the
number, and how many digits are stored. -/
def storeDigit (s : UInt32) (rest : UInt32 × UInt32) : Kernel (UInt32 × UInt32) := do
  putByte (s + rest.2) (rest.1 % 10 + 48).toUInt8
  pure (rest.1 / 10, rest.2 + 1)

/-- The digit loop, into the array `s`: how many digits it stores. -/
def storeDigits (s n : UInt32) : Kernel UInt32 := do
  let rest ← loop (fun rest _ => rest.1 > 0) (storeDigit s) .endless loopBound (n, 0)
  pure rest.2

/-- `print_serial_unsigned_decimal`, with its local array at `s`. -/
def printSerialUnsignedDecimal (s n : UInt32) : Logging Unit := do
  if n = 0 then
    unwatched (putByte s '0'.toUInt8)
    unwatched (putByte (s + 1) 0)
    printSerial s
  else
    let pos ← unwatched (storeDigits s n)
    unwatched (putByte (s + pos) 0)
    unwatched (strrev s)
    printSerial s

/-- `hexdn`: the low nibble of `eax`. -/
def hexdn (eax : UInt32) : Logging Unit :=
  let al := (eax &&& 0x0f).toUInt8 + '0'.toUInt8
  putSerial (if al ≤ '9'.toUInt8 then al else al + 7)

/-- `hexdb` prints the high nibble and runs on into `hexdn`. -/
def hexdb (eax : UInt32) : Logging Unit := do
  hexdn (eax >>> 4)
  hexdn eax

/-- `hexdw` prints the high byte and runs on into `hexdb`. -/
def hexdw (eax : UInt32) : Logging Unit := do
  hexdb (eax >>> 8)
  hexdb eax

/-- `print_serial_hex`, or `hexdd`, prints the high word and runs on into `hexdw`. -/
def printSerialHex (n : UInt32) : Logging Unit := do
  hexdw (n >>> 16)
  hexdw n

/-! ## Strings and numbers -/

section Printing

variable {w : Watched Machine SerialEvent} {s n : UInt32} {text : List UInt8}

theorem putSerial_run (a : UInt8) : putSerial a w = .ok () ⟨w.state, w.trace ++ [.sent a]⟩ := rfl

/-- The loop of `print_serial` sends what is left of the string. -/
theorem printSerialFrom_run {fuel i : Nat} (string : CString w.state.mem s text)
    (inside : i ≤ text.length) (enough : text.length - i < fuel) :
    printSerialFrom s fuel (UInt32.ofNat i) w =
      .ok () ⟨w.state, w.trace ++ (text.drop i).map .sent⟩ := by
  have short := string.length_lt
  have length : (UInt32.ofNat text.length).toNat = text.length := UInt32.toNat_ofNat_of_lt' short
  have position : (UInt32.ofNat i).toNat = i :=
    UInt32.toNat_ofNat_of_lt' (Nat.lt_of_le_of_lt inside short)
  induction fuel generalizing i w with
  | zero => omega
  | succ fuel ih =>
      rw [printSerialFrom, bind_of_ok (unwatched_ok (strlen_run string))]
      by_cases more : i < text.length
      · have below : UInt32.ofNat i < UInt32.ofNat text.length := by
          rw [UInt32.lt_iff_toNat_lt, position, length]
          exact more
        have next : UInt32.ofNat i + 1 = UInt32.ofNat (i + 1) := by
          rw [UInt32.ofNat_add]
          rfl
        have byte : unwatched (getByte (s + UInt32.ofNat i)) w = .ok text[i] w := by
          rw [unwatched_ok (getByte_run _ _), string.at_index more]
        rw [if_pos below, bind_of_ok byte, bind_of_ok (putSerial_run _), next]
        refine (@ih ⟨w.state, w.trace ++ [.sent text[i]]⟩ (i + 1) string more (by omega)
          (UInt32.toNat_ofNat_of_lt' (Nat.lt_of_le_of_lt more short))).trans ?_
        rw [List.drop_eq_getElem_cons more, List.map_cons, List.append_assoc]
        rfl
      · have done : i = text.length := by omega
        have notBelow : ¬ UInt32.ofNat i < UInt32.ofNat text.length := by
          rw [UInt32.lt_iff_toNat_lt, position, length]
          exact more
        rw [if_neg notBelow, done, List.drop_length, List.map_nil, List.append_nil]
        rfl

/-- `print_serial` sends its string. -/
theorem printSerial_run (string : CString w.state.mem s text) :
    printSerial s w = .ok () ⟨w.state, w.trace ++ text.map .sent⟩ := by
  have short := string.length_lt
  exact printSerialFrom_run string (Nat.zero_le _) (by unfold loopBound; omega)

/-- A nibble becomes its digit. -/
theorem nibble_digit : ∀ nibble < 16,
    (if UInt8.ofNat nibble + '0'.toUInt8 ≤ '9'.toUInt8 then UInt8.ofNat nibble + '0'.toUInt8
      else UInt8.ofNat nibble + '0'.toUInt8 + 7) = Numeral.hexDigit nibble := by
  decide

theorem low_nibble (eax : UInt32) : (eax &&& 0x0f).toUInt8 = UInt8.ofNat (eax.toNat % 16) := by
  rw [← UInt8.toNat_inj, UInt32.toNat_toUInt8, UInt32.toNat_and, UInt8.toNat_ofNat']
  change (eax.toNat &&& 2 ^ 4 - 1) % 2 ^ 8 = _
  rw [Nat.and_two_pow_sub_one_eq_mod]

/-- `hexdn` sends one digit. -/
theorem hexdn_run (eax : UInt32) :
    hexdn eax w = .ok () ⟨w.state, w.trace ++ (Numeral.hex 1 eax.toNat).map .sent⟩ := by
  rw [hexdn, low_nibble, putSerial_run, nibble_digit _ (Nat.mod_lt _ (by decide)), Numeral.hex_one]
  rfl

theorem hexdb_run (eax : UInt32) :
    hexdb eax w = .ok () ⟨w.state, w.trace ++ (Numeral.hex 2 eax.toNat).map .sent⟩ := by
  have halves := @Numeral.hex_halves 1 eax 4 (by decide) rfl
  rw [hexdb, bind_of_ok (hexdn_run _), hexdn_run, List.append_assoc, ← List.map_append, halves]

theorem hexdw_run (eax : UInt32) :
    hexdw eax w = .ok () ⟨w.state, w.trace ++ (Numeral.hex 4 eax.toNat).map .sent⟩ := by
  have halves := @Numeral.hex_halves 2 eax 8 (by decide) rfl
  rw [hexdw, bind_of_ok (hexdb_run _), hexdb_run, List.append_assoc, ← List.map_append, halves]

/-- `print_serial_hex` sends eight digits. -/
theorem printSerialHex_run (n : UInt32) :
    printSerialHex n w = .ok () ⟨w.state, w.trace ++ (Numeral.hex 8 n.toNat).map .sent⟩ := by
  have halves := @Numeral.hex_halves 4 n 16 (by decide) rfl
  rw [printSerialHex, bind_of_ok (hexdw_run _), hexdw_run, List.append_assoc, ← List.map_append,
    halves]

/-- The digit that the loop stores. -/
theorem storedDigit (n : UInt32) : (n % 10 + 48).toUInt8 = Numeral.decimalDigit (n.toNat % 10) := by
  have ten : (10 : UInt32).toNat = 10 := rfl
  have zero : (48 : UInt32).toNat = 48 := rfl
  rw [Numeral.decimalDigit, ← UInt8.toNat_inj, UInt32.toNat_toUInt8, UInt32.toNat_add,
    UInt32.toNat_mod, UInt8.toNat_add, UInt8.toNat_ofNat', ten, zero]
  change _ = (48 + n.toNat % 10 % 2 ^ 8) % 2 ^ 8
  omega

theorem storeDigit_run (n pos : UInt32) (m : Machine) :
    storeDigit s (n, pos) m = .ok (n / 10, pos + 1)
      (m.withMem (m.mem.write (s + pos) [Numeral.decimalDigit (n.toNat % 10)])) := by
  rw [storeDigit, storedDigit]
  rfl

/-- The digit loop stores the digits lowest first. -/
theorem storeDigits_from {fuel : Nat} {pos : UInt32} {m : Machine}
    (enough : (Numeral.lowDigits n.toNat).length < fuel)
    (short : (Numeral.lowDigits n.toNat).length < 2 ^ 32) :
    loop (fun (rest : UInt32 × UInt32) (_ : Machine) => decide (rest.1 > 0)) (storeDigit s)
        Halt.endless fuel (n, pos) m =
      .ok (0, pos + UInt32.ofNat (Numeral.lowDigits n.toNat).length)
        (m.withMem (m.mem.write (s + pos) (Numeral.lowDigits n.toNat))) := by
  induction fuel generalizing n pos m with
  | zero => omega
  | succ fuel ih =>
      by_cases zero : n = 0
      · subst zero
        refine (loop_done rfl).trans ?_
        simp
      · have positive : 0 < n.toNat :=
          UInt32.lt_iff_toNat_lt.mp (UInt32.pos_iff_ne_zero.mpr zero)
        have tenth : (n / 10).toNat = n.toNat / 10 := UInt32.toNat_div _ _
        have digits := Numeral.lowDigits_pos positive
        rw [digits, List.length_cons] at enough short
        have rest := @ih (n / 10) (pos + 1)
          (m.withMem (m.mem.write (s + pos) [Numeral.decimalDigit (n.toNat % 10)]))
          (by rw [tenth]; omega) (by rw [tenth]; omega)
        have joined : (m.mem.write (s + pos) [Numeral.decimalDigit (n.toNat % 10)]).write
            (s + pos + 1) (Numeral.lowDigits (n.toNat / 10)) =
            m.mem.write (s + pos) (Numeral.lowDigits n.toNat) := by
          rw [digits]
          exact Bytes.write_append (by rw [List.length_singleton]; omega)
        have length : pos + 1 + UInt32.ofNat (Numeral.lowDigits (n.toNat / 10)).length =
            pos + UInt32.ofNat (Numeral.lowDigits n.toNat).length := by
          rw [digits, List.length_cons, UInt32.ofNat_add, UInt32.add_assoc, UInt32.add_comm 1]
          rfl
        rw [tenth, ← UInt32.add_assoc, Machine.withMem_mem, Machine.withMem_withMem, joined,
          length] at rest
        refine (loop_again ?_).trans ((bind_of_ok (storeDigit_run n pos m)).trans rest)
        exact decide_eq_true (UInt32.lt_iff_toNat_lt.mpr positive)

theorem storeDigits_run (s n : UInt32) (m : Machine) :
    storeDigits s n m = .ok (UInt32.ofNat (Numeral.lowDigits n.toNat).length)
      (m.withMem (m.mem.write s (Numeral.lowDigits n.toNat))) := by
  have few := Numeral.length_lowDigits_word n
  have run := @storeDigits_from s n loopBound 0 m (by unfold loopBound; omega) (by omega)
  rw [UInt32.add_zero, UInt32.zero_add] at run
  exact bind_of_ok run

/-- A text and its zero byte, stored. -/
theorem cString_stored {mem : Bytes} (noNul : 0 ∉ text) (short : text.length < 2 ^ 32) :
    CString (mem.write s (text ++ [0])) s text := by
  have same : (mem.write s (text ++ [0])).read s (text ++ [0]).length = text ++ [0] :=
    Bytes.read_write_same (by rw [List.length_append, List.length_singleton]; omega)
  rw [List.length_append, List.length_singleton] at same
  exact ⟨same, noNul⟩

/-- `print_serial_unsigned_decimal` sends the decimal numeral, and stores in its array. -/
theorem printSerialUnsignedDecimal_run (s n : UInt32) (w : Watched Machine SerialEvent) :
    ∃ mem, printSerialUnsignedDecimal s n w = .ok () ⟨w.state.withMem mem,
        w.trace ++ (Numeral.decimal n.toNat).map .sent⟩ ∧
      ∀ address ∉ Span s 25, mem address = w.state.mem address := by
  by_cases zero : n = 0
  · subst zero
    have stored : CString ((w.state.mem.write s ['0'.toUInt8]).write (s + 1) [0]) s
        ['0'.toUInt8] := by
      have joined : (w.state.mem.write s ['0'.toUInt8]).write (s + 1) [0] =
          w.state.mem.write s (['0'.toUInt8] ++ [0]) := Bytes.write_append (by decide)
      rw [joined]
      exact cString_stored (by decide) (by decide)
    refine ⟨(w.state.mem.write s ['0'.toUInt8]).write (s + 1) [0], ?_, fun address outside => ?_⟩
    · rw [printSerialUnsignedDecimal, if_pos rfl]
      refine (bind_of_ok (unwatched_ok (putByte_run _ _ _))).trans
        ((bind_of_ok (unwatched_ok (putByte_run _ _ _))).trans ?_)
      exact printSerial_run stored
    · have inFirst : Span s 1 ⊆ Span s 25 := Span.mono (by decide)
      have inSecond : Span (s + 1) 1 ⊆ Span s 25 := Span.shift_subset (by decide)
      exact (Bytes.write_of_notMem fun member => outside (inSecond member)).trans
        (Bytes.write_of_notMem fun member => outside (inFirst member))
  · have positive : 0 < n.toNat :=
      UInt32.lt_iff_toNat_lt.mp (UInt32.pos_iff_ne_zero.mpr zero)
    have few := Numeral.length_lowDigits_word n
    have noNul := Numeral.zero_notMem_lowDigits n.toNat
    generalize digits : Numeral.lowDigits n.toNat = low at few noNul
    have joined : (w.state.mem.write s low).write (s + UInt32.ofNat low.length) [0] =
        w.state.mem.write s (low ++ [0]) :=
      Bytes.write_append (by rw [List.length_singleton]; omega)
    have string : CString (w.state.mem.write s (low ++ [0])) s low :=
      cString_stored noNul (by omega)
    refine ⟨(w.state.mem.write s (low ++ [0])).write s low.reverse, ?_, fun address outside => ?_⟩
    · rw [printSerialUnsignedDecimal, if_neg zero, Numeral.decimal_pos positive, digits]
      refine (bind_of_ok (unwatched_ok (storeDigits_run s n _))).trans ?_
      rw [digits]
      refine (bind_of_ok (unwatched_ok (putByte_run _ _ _))).trans ?_
      rw [Machine.withMem_mem, Machine.withMem_withMem, joined]
      refine (bind_of_ok (unwatched_ok (strrev_run string))).trans ?_
      exact printSerial_run string.reversed
    · have inText : Span s (low ++ [0]).length ⊆ Span s 25 :=
        Span.mono (by rw [List.length_append, List.length_singleton]; omega)
      have inReversed : Span s low.reverse.length ⊆ Span s 25 :=
        Span.mono (by rw [List.length_reverse]; omega)
      exact (Bytes.write_of_notMem fun member => outside (inReversed member)).trans
        (Bytes.write_of_notMem fun member => outside (inText member))

end Printing

end TorchOS.Logger
