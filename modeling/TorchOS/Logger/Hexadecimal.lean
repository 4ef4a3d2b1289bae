import TorchOS.Base.Code
import TorchOS.Logger.Printing

/-!
# Hexadecimal printing

`print_serial_hex` of `logger.asm`, instruction by instruction. From `hexdd` to `hexdn` each
label calls the next one and then runs into it, so that it prints twice as many digits: the
upper half of `eax` first, then `eax` as it was saved on the stack. `put_serial` is code
elsewhere that keeps the C calling convention.
-/

namespace TorchOS.Logger.Assembly

open Base

/-! ## The code -/

def hexdd : Nat := 1
def hexdw : Nat := 5
def hexdb : Nat := 9
def hexdn : Nat := 13
def hexdn1 : Nat := 18

/-- The instructions of `print_serial_hex`, with `put_serial` at an address. -/
def printSerialHexCode (putSerial : UInt32) : List Operation := [
    -- print_serial_hex:
    .straight (Cpu.step (.load .eax .esp 4)),
    -- hexdd:
    .straight (Cpu.step (.push .eax)),
    .straight (Cpu.shr .eax 16),
    .call hexdw,
    .straight (Cpu.step (.pop .eax)),
    -- hexdw:
    .straight (Cpu.step (.push .eax)),
    .straight (Cpu.shr .eax 8),
    .call hexdb,
    .straight (Cpu.step (.pop .eax)),
    -- hexdb:
    .straight (Cpu.step (.push .eax)),
    .straight (Cpu.shr .eax 4),
    .call hexdn,
    .straight (Cpu.step (.pop .eax)),
    -- hexdn:
    .straight (Cpu.mask .eax 0x0f),
    .straight (Cpu.addByte .eax '0'.toUInt8),
    .straight (Cpu.cmpByte .eax '9'.toUInt8),
    .jbe hexdn1,
    .straight (Cpu.addByte .eax 7),
    -- hexdn1:
    .straight (Cpu.pushHalf .eax),
    .callElsewhere putSerial,
    .straight (Cpu.popHalf .eax),
    .ret]

/-- The character that `put_serial` finds on the stack when it is entered. -/
def argument (entry : Cpu) : UInt8 := entry.mem (entry.general .esp + 4)

/-- The number that `print_serial_hex` finds on the stack. -/
def number (entry : Cpu) : UInt32 := entry.mem.load32 (entry.general .esp + 4)

/-- `put_serial` has been called with characters. -/
def Sends (putSerial : UInt32) (characters : List UInt8) (s t : Calling) : Prop :=
  ∃ entries, t.calls = s.calls ++ entries ∧ (∀ entry ∈ entries, entry.eip = putSerial) ∧
    entries.map argument = characters

/-- `put_serial` has been called with the lowest digits of `eax`. -/
def SendsHex (putSerial : UInt32) (digits : Nat) (s t : Calling) : Prop :=
  Sends putSerial (Numeral.hex digits (s.cpu.general .eax).toNat) s t

theorem Sends.append {putSerial : UInt32} {front back : List UInt8} {s t u : Calling}
    (first : Sends putSerial front s t) (second : Sends putSerial back t u) :
    Sends putSerial (front ++ back) s u := by
  obtain ⟨entries, calls, targets, characters⟩ := first
  obtain ⟨later, calls', targets', characters'⟩ := second
  refine ⟨entries ++ later, ?_, ?_, ?_⟩
  · rw [calls', calls, List.append_assoc]
  · intro entry member
    exact (List.mem_append.mp member).elim (targets entry) (targets' entry)
  · rw [List.map_append, characters, characters']

section Code

variable {code : Code} {elsewhere : Elsewhere} {putSerial count : UInt32} {k digits room : Nat}
  {s : Calling}

/-! ## Twice as many digits -/

/-- Four instructions that call what follows them for the upper digits, and run into it for
the lower ones. -/
structure Doubles (code : Code) (k : Nat) (count : UInt32) : Prop where
  save : code.operations[k]? = some (.straight (Cpu.step (.push .eax)))
  shift : code.operations[k + 1]? = some (.straight (Cpu.shr .eax count))
  high : code.operations[k + 2]? = some (.call (k + 4))
  restore : code.operations[k + 3]? = some (.straight (Cpu.step (.pop .eax)))

/-- The upper digits are printed, and control is behind the four instructions with `eax`
as it was. -/
theorem Doubles.upper (doubles : Doubles code k count)
    (half : code.Routine elsewhere (k + 4) (room + 8) (SendsHex putSerial digits))
    (fits : room + 12 ≤ 2 ^ 32) (here : s.cpu.eip = code.address k) :
    ∃ t, code.Runs elsewhere s t ∧ Back 0 (room + 4) (code.address (k + 4)) s.cpu t.cpu ∧
      t.cpu.general .eax = s.cpu.general .eax ∧
      Sends putSerial (Numeral.hex digits (s.cpu.general .eax >>> count).toNat) s t := by
  obtain ⟨c, calls⟩ := s
  let saved := (c.push (c.general .eax)).goto (code.address (k + 1))
  let shifted := (saved.shr .eax count).goto (code.address (k + 2))
  let entered := (shifted.push (code.address (k + 3))).goto (code.address (k + 4))
  obtain ⟨t, run, back, sent⟩ :=
    @Code.Routine.call code elsewhere (k + 2) (k + 4) (room + 8) ⟨shifted, calls⟩ _ half (by omega)
      doubles.high rfl
  have others : ∀ register ≠ .eax,
      shifted.general register = (c.push (c.general .eax)).general register :=
    fun _ other => saved.shr_other .eax count other
  obtain ⟨whole, eax⟩ : Back 0 (room + 4) (code.address (k + 4)) c _ ∧ _ :=
    back.pop others rfl (by omega)
  refine ⟨⟨(t.cpu.pop .eax).goto (code.address (k + 4)), t.calls⟩, ?_, whole, eax, ?_⟩
  · exact .head doubles.save here (.head doubles.shift rfl
      (run.trans (.head doubles.restore back.eip .refl)))
  · have other : Register.eax ≠ .esp := by decide
    have passed : entered.general .eax = shifted.general .eax :=
      Cpu.push_other (code.address (k + 3)) shifted other
    have pushed : saved.general .eax = c.general .eax := Cpu.push_other (c.general .eax) c other
    have number : entered.general .eax = c.general .eax >>> count := by
      rw [passed, ← pushed]
      exact saved.shr_target .eax count
    rw [← number]
    exact sent

/-- A routine for some digits gives one for twice as many. -/
theorem Doubles.routine (doubles : Doubles code k count)
    (half : code.Routine elsewhere (k + 4) (room + 8) (SendsHex putSerial digits))
    (fits : room + 12 ≤ 2 ^ 32) (narrow : 4 * digits < 32) (wide : count.toNat = 4 * digits) :
    code.Routine elsewhere k room (SendsHex putSerial (digits + digits)) := by
  intro s here
  obtain ⟨t, run, back, eax, upper⟩ := doubles.upper half fits here
  obtain ⟨u, rest, keeps, lower⟩ := half t back.eip
  refine ⟨u, run.trans rest, back.cdecl (keeps.mono (by omega)), ?_⟩
  rw [SendsHex, eax] at lower
  rw [SendsHex, ← Numeral.hex_halves narrow wide]
  exact upper.append lower

/-! ## One digit -/

section Listing

variable (listing : code.operations = printSerialHexCode putSerial)

include listing

theorem operation_at (k : Nat) : code.operations[k]? = (printSerialHexCode putSerial)[k]? := by
  rw [listing]

/-- Both ways from `hexdn` lead to `hexdn1`, with the digit in the low byte of `eax`. -/
theorem hexdn_digit {c : Cpu} {calls : List Cpu} (here : c.eip = code.address hexdn) :
    ∃ reached, code.Runs elsewhere ⟨c, calls⟩ ⟨reached, calls⟩ ∧
      Back 0 28 (code.address hexdn1) c reached ∧
      reached.lowByte .eax = Numeral.hexDigit ((c.general .eax).toNat % 16) := by
  let nibble := (c.mask .eax 0x0f).goto (code.address (hexdn + 1))
  let digit := (nibble.addByte .eax '0'.toUInt8).goto (code.address (hexdn + 2))
  let compared := (digit.cmpByte .eax '9'.toUInt8).goto (code.address (hexdn + 3))
  have start : code.Runs elsewhere ⟨c, calls⟩ ⟨compared, calls⟩ :=
    .head (operation_at listing hexdn) here (.head (operation_at listing (hexdn + 1)) rfl
      (.head (operation_at listing (hexdn + 2)) rfl .refl))
  have kept : ∀ register ≠ .eax, compared.general register = c.general register := by
    intro register other
    refine (nibble.addByte_other .eax '0'.toUInt8 other).trans ?_
    exact c.mask_other .eax 0x0f other
  have low : nibble.lowByte .eax = UInt8.ofNat ((c.general .eax).toNat % 16) := by
    rw [Cpu.lowByte_goto, Cpu.lowByte, c.mask_target, low_nibble]
  have sum : digit.lowByte .eax = nibble.lowByte .eax + '0'.toUInt8 := by
    rw [Cpu.lowByte_goto, Cpu.lowByte_addByte]
  have same : compared.lowByte .eax = digit.lowByte .eax := by
    rw [Cpu.lowByte_goto, Cpu.lowByte_cmpByte]
  have jump : compared.belowOrEqual = decide (digit.lowByte .eax ≤ '9'.toUInt8) := by
    rw [Cpu.belowOrEqual_goto, Cpu.belowOrEqual_cmpByte]
  have letter := nibble_digit ((c.general .eax).toNat % 16) (Nat.mod_lt _ (by decide))
  rw [← low, ← sum] at letter
  by_cases decimal : digit.lowByte .eax ≤ '9'.toUInt8
  · rw [if_pos decimal] at letter
    rw [decide_eq_true decimal] at jump
    refine ⟨compared.goto (code.address hexdn1), ?_, .of_eax rfl kept rfl, ?_⟩
    · refine start.trans (.head (operation_at listing (hexdn + 3)) rfl ?_)
      rw [Code.exec, jump]
      exact .refl
    · rw [Cpu.lowByte_goto, same, letter]
  · let later := compared.goto (code.address (hexdn + 4))
    rw [if_neg decimal] at letter
    rw [decide_eq_false decimal] at jump
    refine ⟨(later.addByte .eax 7).goto (code.address hexdn1), ?_, .of_eax rfl ?_ rfl, ?_⟩
    · refine start.trans (.head (operation_at listing (hexdn + 3)) rfl ?_)
      rw [Code.exec, jump]
      exact .head (operation_at listing (hexdn + 4)) rfl .refl
    · intro register other
      exact (later.addByte_other .eax 7 other).trans (kept register other)
    · rw [Cpu.lowByte_goto, Cpu.lowByte_addByte, Cpu.lowByte_goto, same, letter]

-- The caller's stack above the two bytes of the argument: the return address of the call of
-- `hexdn`, then one saved number and one return address for each label before it.
variable (convention : ∀ calls entry, entry.eip = putSerial →
  Cdecl 2 28 entry (elsewhere calls entry))

include convention

/-- The low byte of `eax` is sent. -/
theorem hexdn1_routine : code.Routine elsewhere hexdn1 24
    fun s t => Sends putSerial [s.cpu.lowByte .eax] s t := by
  rintro ⟨c, calls⟩ here
  let pushed := (c.pushHalf .eax).goto (code.address (hexdn1 + 1))
  let entry := (pushed.push (code.address (hexdn1 + 2))).goto putSerial
  let left := elsewhere calls entry
  let popped := (left.popHalf .eax).goto (code.address (hexdn1 + 3))
  have back : Back 2 28 (code.address (hexdn1 + 2)) pushed left :=
    (convention calls entry rfl).back (by decide)
  have whole : Back 0 28 (code.address (hexdn1 + 3)) c popped := back.half (by decide)
  have keeps : Cdecl 0 24 c popped.ret := whole.cdecl (Cdecl.ret 24 popped)
  refine ⟨⟨popped.ret, calls ++ [entry]⟩, ?_, keeps, [entry], rfl, ?_, ?_⟩
  · exact .head (operation_at listing hexdn1) here (.head (operation_at listing (hexdn1 + 1)) rfl
      (.head (operation_at listing (hexdn1 + 2)) back.eip
        (.head (operation_at listing (hexdn1 + 3)) rfl .refl)))
  · intro called member
    rw [List.mem_singleton.mp member]
    rfl
  · have esp : entry.general .esp = pushed.general .esp - 4 :=
      Cpu.push_esp (code.address (hexdn1 + 2)) pushed
    have above : pushed.general .esp - 4 + 4 = pushed.general .esp := UInt32.sub_add_cancel _ _
    have kept : entry.mem (pushed.general .esp) = pushed.mem (pushed.general .esp) :=
      Cpu.push_above (code.address (hexdn1 + 2)) pushed
    have low : pushed.general .esp = c.general .esp - 2 := c.pushHalf_esp .eax
    rw [List.map_singleton, argument, esp, above, kept, low]
    exact congrArg (fun byte => [byte]) (c.pushHalf_low .eax)

/-- One digit is sent. -/
theorem hexdn_routine : code.Routine elsewhere hexdn 24 (SendsHex putSerial 1) := by
  rintro ⟨c, calls⟩ here
  obtain ⟨reached, run, back, byte⟩ := @hexdn_digit _ elsewhere _ listing c calls here
  obtain ⟨u, rest, keeps, sent⟩ :=
    hexdn1_routine listing convention ⟨reached, calls⟩ back.eip
  refine ⟨u, run.trans rest, back.cdecl keeps, ?_⟩
  rw [SendsHex, Numeral.hex_one, ← byte]
  exact sent

/-! ## The whole routine -/

theorem hexdb_routine : code.Routine elsewhere hexdb 16 (SendsHex putSerial 2) := by
  have found := operation_at listing
  have doubles : Doubles code hexdb 4 := ⟨found _, found _, found _, found _⟩
  have twice := doubles.routine (hexdn_routine listing convention) (by decide) (by decide) rfl
  exact twice

theorem hexdw_routine : code.Routine elsewhere hexdw 8 (SendsHex putSerial 4) := by
  have found := operation_at listing
  have doubles : Doubles code hexdw 8 := ⟨found _, found _, found _, found _⟩
  have twice := doubles.routine (hexdb_routine listing convention) (by decide) (by decide) rfl
  exact twice

theorem hexdd_routine : code.Routine elsewhere hexdd 0 (SendsHex putSerial 8) := by
  have found := operation_at listing
  have doubles : Doubles code hexdd 16 := ⟨found _, found _, found _, found _⟩
  have twice := doubles.routine (hexdw_routine listing convention) (by decide) (by decide) rfl
  exact twice

/-- The number is loaded, and `hexdd` is run into. -/
theorem listing_routine : code.Routine elsewhere 0 0 fun s t =>
    Sends putSerial (Numeral.hex 8 (number s.cpu).toNat) s t := by
  rintro ⟨c, calls⟩ here
  let loaded := (c.step (.load .eax .esp 4)).goto (code.address hexdd)
  have others : ∀ register ≠ .eax, loaded.general register = c.general register :=
    fun _ other => Function.update_of_ne other ..
  have back : Back 0 4 (code.address hexdd) c loaded := .of_eax rfl others rfl
  obtain ⟨t, run, keeps, sent⟩ := hexdd_routine listing convention ⟨loaded, calls⟩ rfl
  have eax : loaded.general .eax = number c := by
    change Function.update c.general Register.eax (number c) .eax = _
    exact Function.update_self ..
  rw [SendsHex, eax] at sent
  exact ⟨t, .head (operation_at listing 0) here run, back.cdecl keeps, sent⟩

/-- The printed numeral of a number is exact, and `put_serial` gets it character by
character. -/
structure PrintsHex (putSerial n : UInt32) (calls : List Cpu) : Prop where
  targets : ∀ entry ∈ calls, entry.eip = putSerial
  eight : calls.length = 8
  digits : calls.map argument = Numeral.hex 8 n.toNat
  upperCase : ∀ entry ∈ calls, (48 ≤ argument entry ∧ argument entry ≤ 57) ∨
    (65 ≤ argument entry ∧ argument entry ≤ 70)
  value : Numeral.readBack 16 (calls.map argument) = n.toNat

/-- `print_serial_hex` prints its number exactly and returns to its caller. -/
theorem printSerialHex_exact {s : Calling} (here : s.cpu.eip = code.address 0) :
    ∃ t calls, code.Runs elsewhere s t ∧ t.calls = s.calls ++ calls ∧
      PrintsHex putSerial (number s.cpu) calls ∧ t.cpu.eip = s.cpu.top ∧
      t.cpu.general .esp = s.cpu.general .esp + 4 ∧ Cdecl 0 0 s.cpu t.cpu := by
  obtain ⟨t, run, keeps, calls, called, targets, digits⟩ :=
    listing_routine listing convention s here
  refine ⟨t, calls, run, called, ⟨targets, ?_, digits, ?_, ?_⟩, keeps.eip, keeps.esp, keeps⟩
  · rw [← List.length_map argument, digits, Numeral.length_hex]
  · intro entry member
    have character := List.mem_map_of_mem (f := argument) member
    rw [digits] at character
    exact Numeral.mem_hex character
  · rw [digits, Numeral.readBack_hex]
    exact Nat.mod_eq_of_lt (number s.cpu).toNat_lt

end Listing

end Code

/-! ## An assembled instance -/

/-- The listing as it is assembled at 1 MiB. -/
def assembled : Code where
  operations := printSerialHexCode 0x00100400
  address k := 0x00100000 +
    [0, 4, 5, 8, 13, 14, 15, 18, 23, 24, 25, 28, 33, 34, 37, 39, 41, 43, 45, 47, 52, 54].getD k 0
  apart := by decide

/-- `put_serial` as it is compiled, for a port that is ready: it saves `ebp`, leaves the
character in `eax` and the port in `edx`, and returns. -/
def compiledPutSerial (_ : List Cpu) (entry : Cpu) : Cpu :=
  entry.execute [.push .ebp, .load .eax .esp 8, .set .edx 0x3F8, .pop .ebp, .ret]

theorem compiledPutSerial_cdecl (calls : List Cpu) (entry : Cpu) :
    Cdecl 2 28 entry (compiledPutSerial calls entry) := by
  have above : entry.general .esp - 4 + 4 = entry.general .esp := UInt32.sub_add_cancel _ _
  have kept : ∀ address ∈ Span (entry.general .esp) 34,
      (compiledPutSerial calls entry).mem address = entry.mem address := by
    intro address inside
    exact Bytes.store32_of_notMem (Span.notMem_below inside (by decide) (by decide))
  constructor
  · refine Eq.trans ?_ (Bytes.load32_congr fun address inside =>
      kept address (Span.mono (by decide) inside))
    simp [compiledPutSerial, Cpu.step, Cpu.ret, Cpu.pop, Cpu.setGeneral, Cpu.top, above]
  · simp [compiledPutSerial, Cpu.step, Cpu.ret, Cpu.pop, Cpu.setGeneral, above]
  · intro register member
    obtain ⟨eax, esp⟩ := calleeSaved_ne member
    have edx : register ≠ .edx := by
      rintro rfl
      exact absurd member (by decide)
    by_cases ebp : register = .ebp
    · rw [ebp]
      simp [compiledPutSerial, Cpu.step, Cpu.ret, Cpu.pop, Cpu.setGeneral, Cpu.top]
    · simp [compiledPutSerial, Cpu.step, Cpu.ret, Cpu.pop, Cpu.setGeneral, Cpu.push, eax, esp, edx,
        ebp]
  · intro address inside
    rw [UInt32.add_assoc] at inside
    exact kept address (Span.shift_subset (by decide) inside)

/-- Called with every byte of memory 0xBF, those of the number among them. -/
def filled : Calling :=
  ⟨⟨fun _ => 0x00800000, fun _ => 0x10, 0x08, 0x00100000, 0x202, 0, fun _ => 0xBF⟩, []⟩

theorem printSerialHex_exact_filled :
    ∃ t, assembled.Runs compiledPutSerial filled t ∧
      PrintsHex 0x00100400 0xBFBFBFBF t.calls ∧ t.cpu.eip = 0xBFBFBFBF ∧
      t.cpu.general .esp = 0x00800004 := by
  obtain ⟨t, calls, run, called, prints, eip, esp, _⟩ :=
    @printSerialHex_exact assembled compiledPutSerial 0x00100400 rfl
      (fun calls entry _ => compiledPutSerial_cdecl calls entry) filled rfl
  change t.calls = [] ++ calls at called
  rw [List.nil_append] at called
  rw [← called] at prints
  exact ⟨t, run, prints, eip, esp⟩

end TorchOS.Logger.Assembly
