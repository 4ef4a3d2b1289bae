import TorchOS.Base.Cpu
import Mathlib.Logic.Relation

/-!
# Code at addresses

Code that jumps, calls and returns. Each instruction lies at an address of its own, `eip`
says which one is next, and `ret` goes wherever the stack says. Code elsewhere that it
calls is not looked into: it is known by the convention it keeps, and the states in which
it was entered are recorded.
-/

namespace Base

namespace Cpu

/-! ## Parts of registers -/

/-- The low byte of a register. -/
def lowByte (source : Register) (c : Cpu) : UInt8 := (c.general source).toUInt8

/-- The low byte of a register is replaced. -/
def setLowByte (target : Register) (value : UInt8) (c : Cpu) : Cpu :=
  c.setGeneral target ((c.general target &&& 0xFFFFFF00) ||| value.toUInt32)

/-- `push` of the low half of a register. -/
def pushHalf (source : Register) (c : Cpu) : Cpu :=
  { c.setGeneral .esp (c.general .esp - 2) with
    mem := c.mem.write (c.general .esp - 2) [c.lowByte source, (c.general source >>> 8).toUInt8] }

/-- `pop` to the low half of a register. -/
def popHalf (target : Register) (c : Cpu) : Cpu :=
  (c.setGeneral .esp (c.general .esp + 2)).setLow target
    ((c.mem (c.general .esp)).toUInt16 ||| ((c.mem (c.general .esp + 1)).toUInt16 <<< 8))

/-- Go on at an address. -/
def goto (address : UInt32) (c : Cpu) : Cpu := { c with eip := address }

/-! ## Flags of shifts, masks and bytes -/

/-- The flags of `value >>> count`. -/
def shiftFlags (value count : UInt32) : UInt32 :=
  flagIf carryFlag ((value >>> (count - 1)) &&& 1 = 1) ||| resultFlags (value >>> count)

/-- The flags of a byte that do not depend on the operation. -/
def byteFlags (result : UInt8) : UInt32 :=
  flagIf parityFlag (evenParity result.toUInt32) ||| flagIf signFlag (0x80 ≤ result) |||
    flagIf zeroFlag (result = 0)

/-- The flags of `left + right` in a byte. -/
def addByteFlags (left right : UInt8) : UInt32 :=
  flagIf carryFlag (left + right < left) |||
    flagIf adjustFlag ((left ^^^ right ^^^ (left + right)) &&& 0x10 ≠ 0) |||
    flagIf overflowFlag (0x80 ≤ (left ^^^ (left + right)) &&& (right ^^^ (left + right))) |||
    byteFlags (left + right)

/-- The flags of `left - right` in a byte. -/
def subByteFlags (left right : UInt8) : UInt32 :=
  flagIf carryFlag (left < right) |||
    flagIf adjustFlag ((left ^^^ right ^^^ (left - right)) &&& 0x10 ≠ 0) |||
    flagIf overflowFlag (0x80 ≤ (left ^^^ right) &&& (left ^^^ (left - right))) |||
    byteFlags (left - right)

/-- The condition of `jbe`: the carry or the zero flag. -/
def belowOrEqual (c : Cpu) : Bool := c.eflags &&& (carryFlag ||| zeroFlag) ≠ 0

/-- What a shift leaves: `al` to `eax` alike, the flags it leaves undefined stay. -/
def shr (target : Register) (count : UInt32) (c : Cpu) : Cpu :=
  (c.setGeneral target (c.general target >>> count)).setStatus
    (shiftFlags (c.general target) count ||| (c.eflags &&& (adjustFlag ||| overflowFlag)))

/-- `and` with a value; the flag it leaves undefined stays. -/
def mask (target : Register) (value : UInt32) (c : Cpu) : Cpu :=
  (c.setGeneral target (c.general target &&& value)).setStatus
    (resultFlags (c.general target &&& value) ||| (c.eflags &&& adjustFlag))

/-- `add` to a low byte. -/
def addByte (target : Register) (value : UInt8) (c : Cpu) : Cpu :=
  (c.setLowByte target (c.lowByte target + value)).setStatus
    (addByteFlags (c.lowByte target) value)

/-- `cmp` of a low byte. -/
def cmpByte (source : Register) (value : UInt8) (c : Cpu) : Cpu :=
  c.setStatus (subByteFlags (c.lowByte source) value)

section Bytes

variable (c : Cpu) (target : Register) (value : UInt8)

theorem shr_target (count : UInt32) :
    (c.shr target count).general target = c.general target >>> count := Function.update_self ..

theorem shr_other {register : Register} (count : UInt32) (other : register ≠ target) :
    (c.shr target count).general register = c.general register := Function.update_of_ne other ..

theorem lowByte_setLowByte : (c.setLowByte target value).lowByte target = value := by
  have cleared : (c.general target &&& 0xFFFFFF00).toUInt8 = 0 := by
    rw [UInt32.toUInt8_and]
    exact UInt8.and_zero
  have own : (c.setLowByte target value).general target =
      (c.general target &&& 0xFFFFFF00) ||| value.toUInt32 := Function.update_self _ _ _
  rw [lowByte, own, UInt32.toUInt8_or, cleared, UInt8.toUInt8_toUInt32, UInt8.zero_or]

theorem lowByte_addByte :
    (c.addByte target value).lowByte target = c.lowByte target + value :=
  lowByte_setLowByte c target (c.lowByte target + value)

theorem addByte_other {register : Register} (other : register ≠ target) :
    (c.addByte target value).general register = c.general register :=
  Function.update_of_ne other ..

theorem mask_target (value : UInt32) :
    (c.mask target value).general target = c.general target &&& value := Function.update_self ..

theorem mask_other {register : Register} (value : UInt32) (other : register ≠ target) :
    (c.mask target value).general register = c.general register :=
  Function.update_of_ne other ..

/-- The comparison of two bytes sets the carry or the zero flag exactly when the left one is
at most the right one. -/
theorem belowOrEqual_cmpByte : (c.cmpByte target value).belowOrEqual =
    decide (c.lowByte target ≤ value) := by
  have below : flagIf carryFlag (c.lowByte target < value) &&& (carryFlag ||| zeroFlag) =
      flagIf carryFlag (c.lowByte target < value) := by
    cases decide (c.lowByte target < value) <;> decide
  have equal : flagIf zeroFlag (c.lowByte target - value = 0) &&& (carryFlag ||| zeroFlag) =
      flagIf zeroFlag (c.lowByte target - value = 0) := by
    cases decide (c.lowByte target - value = 0) <;> decide
  have cleared : ~~~statusFlags &&& (carryFlag ||| zeroFlag) = 0 := by decide
  have same : c.lowByte target - value = 0 ↔ c.lowByte target = value := by
    constructor
    · intro none
      grind
    · rintro rfl
      exact UInt8.sub_self _
  simp only [belowOrEqual, cmpByte, setStatus, subByteFlags, byteFlags, Word.or_and_distrib,
    below, equal]
  rw [UInt32.and_assoc, cleared, flagIf_and_of_disjoint, flagIf_and_of_disjoint,
    flagIf_and_of_disjoint, flagIf_and_of_disjoint]
  · rw [UInt32.and_zero, UInt32.zero_or, UInt32.or_zero, UInt32.or_zero, UInt32.zero_or,
      UInt32.zero_or]
    have either : ∀ carry zero : Bool,
        decide (flagIf carryFlag carry ||| flagIf zeroFlag zero ≠ 0) = (carry || zero) := by
      decide
    rw [either, ← Bool.decide_or, decide_eq_decide, same, UInt8.le_iff_toNat_le,
      UInt8.lt_iff_toNat_lt, ← UInt8.toNat_inj]
    exact Nat.le_iff_lt_or_eq.symm
  all_goals decide

end Bytes

@[simp] theorem lowByte_goto (source : Register) (address : UInt32) (c : Cpu) :
    (c.goto address).lowByte source = c.lowByte source := rfl

@[simp] theorem belowOrEqual_goto (address : UInt32) (c : Cpu) :
    (c.goto address).belowOrEqual = c.belowOrEqual := rfl

@[simp] theorem lowByte_cmpByte (source target : Register) (value : UInt8) (c : Cpu) :
    (c.cmpByte target value).lowByte source = c.lowByte source := rfl

/-- A push keeps what was on top. -/
theorem push_above (value : UInt32) (c : Cpu) :
    (c.push value).mem (c.general .esp) = c.mem (c.general .esp) :=
  Bytes.store32_of_notMem (Span.notMem_below (Span.start_mem Nat.one_pos) (by decide) (by decide))

section Halves

variable (c : Cpu) (source : Register) {target register : Register}

theorem pushHalf_esp : (c.pushHalf source).general .esp = c.general .esp - 2 := by
  simp [pushHalf, setGeneral]

theorem pushHalf_low : (c.pushHalf source).mem (c.general .esp - 2) = c.lowByte source := by
  simp [pushHalf, Bytes.write]

theorem pushHalf_other (other : register ≠ .esp) :
    (c.pushHalf source).general register = c.general register := by
  simp [pushHalf, setGeneral, other]

theorem popHalf_esp (other : target ≠ .esp) :
    (c.popHalf target).general .esp = c.general .esp + 2 := by
  simp [popHalf, setLow, setGeneral, other.symm]

theorem popHalf_other (target_ne : register ≠ target) (esp_ne : register ≠ .esp) :
    (c.popHalf target).general register = c.general register := by
  simp [popHalf, setLow, setGeneral, target_ne, esp_ne]

end Halves

end Cpu

/-! ## Code -/

/-- An instruction. Targets within the code are indices. -/
inductive Operation where
  /-- What goes on to the next instruction: its effect. -/
  | straight (effect : Cpu → Cpu)
  | jbe (target : Nat)
  | call (target : Nat)
  /-- `call` of code elsewhere. -/
  | callElsewhere (target : UInt32)
  | ret

/-- Code, with an address of its own for every instruction. -/
structure Code where
  operations : List Operation
  address : Nat → UInt32
  apart : ∀ i < operations.length, ∀ j < operations.length, address i = address j → i = j

/-- The processor, and the states in which code elsewhere was entered, oldest first. -/
structure Calling where
  cpu : Cpu
  calls : List Cpu

/-- What code elsewhere leaves, which may depend on the calls before. -/
abbrev Elsewhere := List Cpu → Cpu → Cpu

namespace Code

variable (code : Code) (elsewhere : Elsewhere)

/-- The instruction at an address. -/
def index (address : UInt32) : Option Nat :=
  (List.range code.operations.length).find? fun k => code.address k = address

/-- What the instruction of an index does. -/
def exec (k : Nat) (s : Calling) : Operation → Calling
  | .straight effect => { s with cpu := (effect s.cpu).goto (code.address (k + 1)) }
  | .jbe target =>
      { s with cpu := s.cpu.goto (code.address (if s.cpu.belowOrEqual then target else k + 1)) }
  | .call target =>
      { s with cpu := (s.cpu.push (code.address (k + 1))).goto (code.address target) }
  | .callElsewhere target =>
      let entry := (s.cpu.push (code.address (k + 1))).goto target
      { cpu := elsewhere s.calls entry, calls := s.calls ++ [entry] }
  | .ret => { s with cpu := s.cpu.ret }

/-- One step, while control is in the code. -/
def step (s : Calling) : Option Calling := do
  let k ← code.index s.cpu.eip
  let operation ← code.operations[k]?
  pure (code.exec elsewhere k s operation)

/-- A finite run. -/
def Runs : Calling → Calling → Prop :=
  Relation.ReflTransGen fun s t => code.step elsewhere s = some t

section Steps

variable {code elsewhere} {k target : Nat} {s t : Calling} {operation : Operation}

theorem index_address (inside : k < code.operations.length) :
    code.index (code.address k) = some k := by
  rw [index, List.find?_range_eq_some]
  refine ⟨by simp, List.mem_range.mpr inside, fun j earlier => ?_⟩
  rw [Bool.not_eq_true', decide_eq_false_iff_not]
  intro same
  have equal := code.apart j (by omega) k inside same
  omega

/-- Control at an instruction executes it. -/
theorem step_at (found : code.operations[k]? = some operation)
    (here : s.cpu.eip = code.address k) :
    code.step elsewhere s = some (code.exec elsewhere k s operation) := by
  have inside := (List.getElem?_eq_some_iff.mp found).1
  rw [step, here, index_address inside]
  simp [found]

theorem Runs.refl : code.Runs elsewhere s s := Relation.ReflTransGen.refl

theorem Runs.trans {u : Calling} (first : code.Runs elsewhere s t)
    (second : code.Runs elsewhere t u) : code.Runs elsewhere s u :=
  Relation.ReflTransGen.trans first second

/-- A run starts with the instruction that control is at. -/
theorem Runs.head (found : code.operations[k]? = some operation)
    (here : s.cpu.eip = code.address k)
    (rest : code.Runs elsewhere (code.exec elsewhere k s operation) t) :
    code.Runs elsewhere s t :=
  Relation.ReflTransGen.head (step_at found here) rest

end Steps

end Code

/-! ## The calling convention -/

/-- The registers that a callee leaves as they were. -/
def calleeSaved : List Register := [.ebx, .esi, .edi, .ebp]

theorem calleeSaved_ne {register : Register} (saved : register ∈ calleeSaved) :
    register ≠ .eax ∧ register ≠ .esp := by
  constructor
  · rintro rfl
    exact absurd saved (by decide)
  · rintro rfl
    exact absurd saved (by decide)

/-- The C calling convention, seen from the callee: it returns behind the call, with the
registers it must save, and leaves alone the caller's stack above its arguments, of which
`room` bytes are in use. -/
structure Cdecl (arguments : UInt32) (room : Nat) (entry left : Cpu) : Prop where
  eip : left.eip = entry.top
  esp : left.general .esp = entry.general .esp + 4
  saved : ∀ register ∈ calleeSaved, left.general register = entry.general register
  stack : ∀ address ∈ Span (entry.general .esp + 4 + arguments) room,
    left.mem address = entry.mem address

/-- A caller after a call that kept the convention: it goes on at `next` with its stack
pointer and the registers that are saved, and with its stack above the arguments. -/
structure Back (arguments : UInt32) (room : Nat) (next : UInt32) (before after : Cpu) : Prop where
  eip : after.eip = next
  esp : after.general .esp = before.general .esp
  saved : ∀ register ∈ calleeSaved, after.general register = before.general register
  stack : ∀ address ∈ Span (before.general .esp + arguments) room,
    after.mem address = before.mem address

/-- What a call is to the callee, read by the caller. -/
theorem Cdecl.back {arguments next target : UInt32} {room : Nat} {c left : Cpu}
    (keeps : Cdecl arguments room ((c.push next).goto target) left)
    (fits : 4 + arguments.toNat + room ≤ 2 ^ 32) : Back arguments room next c left := by
  have esp : ((c.push next).goto target).general .esp = c.general .esp - 4 := Cpu.push_esp next c
  have above : c.general .esp - 4 + 4 = c.general .esp := UInt32.sub_add_cancel _ _
  have mem : ((c.push next).goto target).mem = c.mem.store32 (c.general .esp - 4) next := rfl
  constructor
  · rw [keeps.eip, Cpu.top, esp, mem]
    exact Bytes.load32_store32 next
  · rw [keeps.esp, esp, above]
  · intro register member
    rw [keeps.saved register member]
    exact Cpu.push_other next c (calleeSaved_ne member).2
  · intro address inside
    have kept := keeps.stack address
    rw [esp, above, mem] at kept
    rw [kept inside]
    apply Bytes.store32_of_notMem
    have start : c.general .esp - 4 = c.general .esp + arguments - (arguments + 4) := by grind
    rw [start]
    have four : (4 : UInt32).toNat = 4 := rfl
    have wide := arguments.toNat_lt
    by_cases empty : room = 0
    · rw [empty, Span.mem_def] at inside
      omega
    · have reach : (arguments + 4).toNat = arguments.toNat + 4 := by
        rw [UInt32.toNat_add, four]
        omega
      exact Span.notMem_below inside (by omega) (by omega)

/-- Less of the caller's stack is in use. -/
theorem Cdecl.mono {arguments : UInt32} {room less : Nat} {entry left : Cpu}
    (keeps : Cdecl arguments room entry left) (fewer : less ≤ room) :
    Cdecl arguments less entry left where
  eip := keeps.eip
  esp := keeps.esp
  saved := keeps.saved
  stack address inside := keeps.stack address (Span.mono fewer inside)

/-- `eax` need not be saved. -/
theorem Back.of_eax {next : UInt32} {room : Nat} {before after : Cpu} (eip : after.eip = next)
    (others : ∀ register ≠ .eax, after.general register = before.general register)
    (mem : after.mem = before.mem) : Back 0 room next before after where
  eip := eip
  esp := others .esp (by decide)
  saved register member := others register (calleeSaved_ne member).1
  stack address _ := by rw [mem]

/-- A word is pushed before a call, which may come after changes to `eax`, and popped to
`eax` after it. -/
theorem Back.pop {next after value : UInt32} {room : Nat} {c between left : Cpu}
    (back : Back 0 (room + 4) next between left)
    (others : ∀ register ≠ .eax, between.general register = (c.push value).general register)
    (mem : between.mem = (c.push value).mem) (fits : 4 + room ≤ 2 ^ 32) :
    Back 0 room after c ((left.pop .eax).goto after) ∧
      ((left.pop .eax).goto after).general .eax = value := by
  have four : (4 : UInt32).toNat = 4 := rfl
  have above : c.general .esp - 4 + 4 = c.general .esp := UInt32.sub_add_cancel _ _
  have esp : between.general .esp = c.general .esp - 4 := by
    rw [others .esp (by decide), Cpu.push_esp]
  have stack := back.stack
  rw [esp, UInt32.add_zero, mem, Cpu.push_mem] at stack
  refine ⟨⟨rfl, ?_, ?_, ?_⟩, ?_⟩
  · change (left.pop .eax).general .esp = _
    rw [left.pop_esp (by decide), back.esp, esp, above]
  · intro register member
    obtain ⟨eax, other⟩ := calleeSaved_ne member
    change (left.pop .eax).general register = _
    rw [left.pop_other eax other, back.saved register member, others register eax,
      Cpu.push_other _ _ other]
  · intro address inside
    rw [UInt32.add_zero] at inside
    have higher : address ∈ Span (c.general .esp - 4) (room + 4) := by
      rw [← above] at inside
      exact Span.shift_subset (by omega) inside
    refine (stack address higher).trans (Bytes.store32_of_notMem ?_)
    exact Span.notMem_below inside (by omega) (by omega)
  · change (left.pop .eax).general .eax = _
    rw [left.pop_target, Cpu.top, back.esp, esp]
    refine (Bytes.load32_congr fun address inside => stack address ?_).trans
      (Bytes.load32_store32 _)
    exact Span.mono (by omega) inside

/-- An argument of two bytes is pushed for a call and popped after it. -/
theorem Back.half {here next after : UInt32} {room : Nat} {source : Register} {c left : Cpu}
    (back : Back 2 room next ((c.pushHalf source).goto here) left) (fits : room + 2 ≤ 2 ^ 32) :
    Back 0 room after c ((left.popHalf .eax).goto after) := by
  have esp : ((c.pushHalf source).goto here).general .esp = c.general .esp - 2 :=
    c.pushHalf_esp source
  have above : c.general .esp - 2 + 2 = c.general .esp := UInt32.sub_add_cancel _ _
  constructor
  · rfl
  · change (left.popHalf .eax).general .esp = _
    rw [left.popHalf_esp (by decide), back.esp, esp, above]
  · intro register member
    obtain ⟨eax, other⟩ := calleeSaved_ne member
    change (left.popHalf .eax).general register = _
    rw [left.popHalf_other eax other, back.saved register member]
    exact c.pushHalf_other source other
  · intro address inside
    rw [UInt32.add_zero] at inside
    have kept := back.stack address
    rw [esp, above] at kept
    refine (kept inside).trans (Bytes.write_of_notMem ?_)
    have two : (2 : UInt32).toNat = 2 := rfl
    exact Span.notMem_below inside (by simp) (by omega)

/-- Returning keeps the convention. -/
theorem Cdecl.ret (room : Nat) (c : Cpu) : Cdecl 0 room c c.ret where
  eip := rfl
  esp := Function.update_self Register.esp _ c.general
  saved _ member := Function.update_of_ne (calleeSaved_ne member).2 ..
  stack _ _ := rfl

/-- Code that comes back from a call with its own stack as it was, and then keeps the
convention, has kept it from before the call. -/
theorem Back.cdecl {next : UInt32} {room : Nat} {before after left : Cpu}
    (back : Back 0 (room + 4) next before after) (keeps : Cdecl 0 room after left) :
    Cdecl 0 room before left := by
  have stack := back.stack
  rw [UInt32.add_zero] at stack
  constructor
  · rw [keeps.eip, Cpu.top, back.esp]
    exact Bytes.load32_congr fun address inside => stack address (Span.mono (by omega) inside)
  · rw [keeps.esp, back.esp]
  · intro register member
    exact (keeps.saved register member).trans (back.saved register member)
  · intro address inside
    have kept := keeps.stack address
    rw [back.esp] at kept
    refine (kept inside).trans (stack address ?_)
    rw [UInt32.add_zero] at inside
    have four : (4 : UInt32).toNat = 4 := rfl
    exact Span.shift_subset (by omega) inside

namespace Code

variable {code : Code} {elsewhere : Elsewhere} {k target room : Nat} {s : Calling}
  {Q : Calling → Calling → Prop}

/-- Code at an entry that keeps the convention, and what it does besides. -/
def Routine (code : Code) (elsewhere : Elsewhere) (entry room : Nat)
    (Q : Calling → Calling → Prop) : Prop :=
  ∀ s : Calling, s.cpu.eip = code.address entry →
    ∃ t, code.Runs elsewhere s t ∧ Cdecl 0 room s.cpu t.cpu ∧ Q s t

/-- A routine is called and comes back. -/
theorem Routine.call (routine : code.Routine elsewhere target room Q) (fits : 4 + room ≤ 2 ^ 32)
    (found : code.operations[k]? = some (.call target)) (here : s.cpu.eip = code.address k) :
    ∃ t, code.Runs elsewhere s t ∧ Back 0 room (code.address (k + 1)) s.cpu t.cpu ∧
      Q { s with cpu := (s.cpu.push (code.address (k + 1))).goto (code.address target) } t := by
  obtain ⟨t, run, keeps, does⟩ := routine
    { s with cpu := (s.cpu.push (code.address (k + 1))).goto (code.address target) } rfl
  exact ⟨t, .head found here run, keeps.back (by simpa using fits), does⟩

end Code

end Base
