import TorchOS.Base.Bytes
import TorchOS.Base.Word
import Mathlib.Logic.Function.Basic

/-!
# A 32-bit processor with a stack

The registers and the memory of a 32-bit x86 processor in ring 0, and the
instructions that code which saves and restores them is made of. Straight-line
code is a list of instructions; `eip` is followed only where control leaves such a
list. The words on a stack are a list, top first: `StackAt` says that they lie in
memory, pushes put words in front of it and pops take them off again.
-/

namespace Base

/-- The general registers. -/
inductive Register where
  | eax
  | ecx
  | edx
  | ebx
  | esp
  | ebp
  | esi
  | edi
  deriving DecidableEq

/-- The segment registers for data. -/
inductive Segment where
  | ds
  | es
  | fs
  | gs
  deriving DecidableEq

/-- The state of the processor. -/
structure Cpu where
  general : Register → UInt32
  segment : Segment → UInt16
  cs : UInt16
  eip : UInt32
  eflags : UInt32
  cr3 : UInt32
  mem : Bytes

/-- The instructions, named by their mnemonics where they have one form. -/
inductive Instruction where
  | push (source : Register)
  /-- `push byte`: the value is sign-extended. -/
  | pushByte (value : Int8)
  | pop (target : Register)
  | pusha
  | popa
  /-- `mov target, value` -/
  | set (target : Register) (value : UInt32)
  /-- `mov` of a value to the low half of a register. -/
  | setLow (target : Register) (value : UInt16)
  /-- `mov target, [base + offset]` -/
  | load (target base : Register) (offset : UInt32)
  /-- `mov [base + offset], source` -/
  | store (base : Register) (offset : UInt32) (source : Register)
  /-- `mov` of a segment register to the low half of a register. -/
  | readSegment (target : Register) (source : Segment)
  /-- `mov` of the low half of a register to a segment register. -/
  | writeSegment (target : Segment) (source : Register)
  /-- `mov target, cr3` -/
  | readCr3 (target : Register)
  /-- `mov cr3, source` -/
  | writeCr3 (source : Register)
  | add (target : Register) (value : UInt32)
  | cmp (left right : Register)
  /-- `je` over the next instruction. -/
  | je (skipped : Instruction)
  | cli
  | sti
  | ret
  | iret

namespace Cpu

/-! ## Flags -/

def carryFlag : UInt32 := 0x001
def parityFlag : UInt32 := 0x004
def adjustFlag : UInt32 := 0x010
def zeroFlag : UInt32 := 0x040
def signFlag : UInt32 := 0x080
def interruptFlag : UInt32 := 0x200
def overflowFlag : UInt32 := 0x800

/-- The flags that arithmetic sets. -/
def statusFlags : UInt32 := 0x8D5

/-- A flag, where a condition holds. -/
def flagIf (flag : UInt32) (condition : Bool) : UInt32 := if condition then flag else 0

/-- Whether the low byte of a result has an even number of ones. -/
def evenParity (result : UInt32) : Bool :=
  (List.range 8).countP (fun bit => (result >>> UInt32.ofNat bit) &&& 1 = 1) % 2 = 0

/-- The flags of a result that do not depend on the operation. -/
def resultFlags (result : UInt32) : UInt32 :=
  flagIf parityFlag (evenParity result) ||| flagIf signFlag (0x80000000 ≤ result) |||
    flagIf zeroFlag (result = 0)

/-- The flags of `left + right`. -/
def addFlags (left right : UInt32) : UInt32 :=
  flagIf carryFlag (left + right < left) |||
    flagIf adjustFlag ((left ^^^ right ^^^ (left + right)) &&& 0x10 ≠ 0) |||
    flagIf overflowFlag (0x80000000 ≤ (left ^^^ (left + right)) &&& (right ^^^ (left + right))) |||
    resultFlags (left + right)

/-- The flags of `left - right`. -/
def subFlags (left right : UInt32) : UInt32 :=
  flagIf carryFlag (left < right) |||
    flagIf adjustFlag ((left ^^^ right ^^^ (left - right)) &&& 0x10 ≠ 0) |||
    flagIf overflowFlag (0x80000000 ≤ (left ^^^ right) &&& (left ^^^ (left - right))) |||
    resultFlags (left - right)

/-- Replace the flags that arithmetic sets. -/
def setStatus (flags : UInt32) (c : Cpu) : Cpu :=
  { c with eflags := (c.eflags &&& ~~~statusFlags) ||| flags }

/-! ## Instructions -/

/-- Change a general register. -/
def setGeneral (target : Register) (value : UInt32) (c : Cpu) : Cpu :=
  { c with general := Function.update c.general target value }

/-- The top of the stack. -/
def top (c : Cpu) : UInt32 := c.mem.load32 (c.general .esp)

def push (value : UInt32) (c : Cpu) : Cpu :=
  { c.setGeneral .esp (c.general .esp - 4) with
    mem := c.mem.store32 (c.general .esp - 4) value }

def pop (target : Register) (c : Cpu) : Cpu :=
  (c.setGeneral .esp (c.general .esp + 4)).setGeneral target c.top

/-- Push words, the first one first. -/
def pushes (words : List UInt32) (c : Cpu) : Cpu := words.foldl (fun c word => c.push word) c

def pusha (c : Cpu) : Cpu :=
  c.pushes [c.general .eax, c.general .ecx, c.general .edx, c.general .ebx, c.general .esp,
    c.general .ebp, c.general .esi, c.general .edi]

/-- `popa` skips the stack pointer that `pusha` saved. -/
def popa (c : Cpu) : Cpu :=
  let low := ((c.pop .edi).pop .esi).pop .ebp
  let skipped := low.setGeneral .esp (low.general .esp + 4)
  (((skipped.pop .ebx).pop .edx).pop .ecx).pop .eax

/-- The low half of a register is replaced. -/
def setLow (target : Register) (value : UInt16) (c : Cpu) : Cpu :=
  c.setGeneral target ((c.general target &&& 0xFFFF0000) ||| value.toUInt32)

/-- Return to the address on top of the stack. -/
def ret (c : Cpu) : Cpu :=
  { c.setGeneral .esp (c.general .esp + 4) with eip := c.top }

/-- Return from an interrupt in the same ring: `eip`, `cs` and `eflags` are popped. -/
def iret (c : Cpu) : Cpu :=
  { c.setGeneral .esp (c.general .esp + 12) with
    eip := c.top
    cs := (c.mem.load32 (c.general .esp + 4)).toUInt16
    eflags := c.mem.load32 (c.general .esp + 8) }

/-- What one instruction does. -/
def step : Instruction → Cpu → Cpu
  | .push source, c => c.push (c.general source)
  | .pushByte value, c => c.push value.toInt32.toUInt32
  | .pop target, c => c.pop target
  | .pusha, c => c.pusha
  | .popa, c => c.popa
  | .set target value, c => c.setGeneral target value
  | .setLow target value, c => c.setLow target value
  | .load target base offset, c => c.setGeneral target (c.mem.load32 (c.general base + offset))
  | .store base offset source, c =>
      { c with mem := c.mem.store32 (c.general base + offset) (c.general source) }
  | .readSegment target source, c => c.setLow target (c.segment source)
  | .writeSegment target source, c =>
      { c with segment := Function.update c.segment target (c.general source).toUInt16 }
  | .readCr3 target, c => c.setGeneral target c.cr3
  | .writeCr3 source, c => { c with cr3 := c.general source }
  | .add target value, c =>
      (c.setGeneral target (c.general target + value)).setStatus (addFlags (c.general target) value)
  | .cmp left right, c => c.setStatus (subFlags (c.general left) (c.general right))
  | .je skipped, c => if c.eflags &&& zeroFlag = 0 then c.step skipped else c
  | .cli, c => { c with eflags := c.eflags &&& ~~~interruptFlag }
  | .sti, c => { c with eflags := c.eflags ||| interruptFlag }
  | .ret, c => c.ret
  | .iret, c => c.iret

/-- Run straight-line code. -/
def execute (code : List Instruction) (c : Cpu) : Cpu :=
  code.foldl (fun c instruction => c.step instruction) c

@[simp] theorem execute_nil (c : Cpu) : execute [] c = c := rfl

@[simp] theorem execute_cons (instruction : Instruction) (code : List Instruction) (c : Cpu) :
    execute (instruction :: code) c = execute code (c.step instruction) := rfl

theorem execute_append (first second : List Instruction) (c : Cpu) :
    execute (first ++ second) c = execute second (execute first c) :=
  List.foldl_append

section Push

variable (value : UInt32) (c : Cpu)

@[simp] theorem push_esp : (c.push value).general .esp = c.general .esp - 4 := by
  simp [push, setGeneral]

@[simp] theorem push_mem : (c.push value).mem = c.mem.store32 (c.general .esp - 4) value := rfl

@[simp] theorem push_eip : (c.push value).eip = c.eip := rfl

@[simp] theorem push_cr3 : (c.push value).cr3 = c.cr3 := rfl

@[simp] theorem push_segment : (c.push value).segment = c.segment := rfl

theorem push_other {register : Register} (other : register ≠ .esp) :
    (c.push value).general register = c.general register := by
  simp [push, setGeneral, other]

end Push

section Pop

variable {target : Register} (c : Cpu)

@[simp] theorem pop_target : (c.pop target).general target = c.top := by
  simp [pop, setGeneral]

theorem pop_esp (other : target ≠ .esp) : (c.pop target).general .esp = c.general .esp + 4 := by
  simp [pop, setGeneral, other.symm]

theorem pop_other {register : Register} (target_ne : register ≠ target) (esp_ne : register ≠ .esp) :
    (c.pop target).general register = c.general register := by
  simp [pop, setGeneral, target_ne, esp_ne]

end Pop

section Flags

variable {flag mask : UInt32}

theorem flagIf_and_of_disjoint (condition : Bool) (apart : flag &&& mask = 0) :
    flagIf flag condition &&& mask = 0 := by
  cases condition
  · exact UInt32.zero_and
  · exact apart

/-- The comparison of two values sets the zero flag exactly when they are equal. -/
theorem subFlags_zeroFlag (left right : UInt32) :
    subFlags left right &&& zeroFlag = flagIf zeroFlag (left = right) := by
  have equal : (left - right = 0) ↔ left = right := by
    constructor
    · intro same
      grind
    · intro same
      rw [same]
      exact UInt32.sub_self right
  have own : ∀ condition, flagIf zeroFlag condition &&& zeroFlag = flagIf zeroFlag condition := by
    decide
  simp only [subFlags, resultFlags, Word.or_and_distrib, own, equal]
  rw [flagIf_and_of_disjoint, flagIf_and_of_disjoint, flagIf_and_of_disjoint,
    flagIf_and_of_disjoint, flagIf_and_of_disjoint]
  · simp only [UInt32.zero_or]
  all_goals decide

/-- A conditional jump after a comparison. -/
theorem cmp_je (left right : Register) (skipped : Instruction) (c : Cpu) :
    (c.step (.cmp left right)).step (.je skipped) =
      if c.general left = c.general right then c.step (.cmp left right)
      else (c.step (.cmp left right)).step skipped := by
  have zero : (c.step (.cmp left right)).eflags &&& zeroFlag =
      flagIf zeroFlag (c.general left = c.general right) := by
    have cleared : ~~~statusFlags &&& zeroFlag = 0 := by decide
    simp only [step, setStatus]
    rw [Word.or_and_distrib, UInt32.and_assoc, cleared, UInt32.and_zero, UInt32.zero_or,
      subFlags_zeroFlag]
  generalize c.step (.cmp left right) = compared at zero ⊢
  rw [step, zero]
  by_cases equal : c.general left = c.general right
  · simp only [equal, decide_true, if_true]
    exact if_neg (by decide)
  · simp only [equal, decide_false, if_false]
    exact if_pos rfl

end Flags

end Cpu

/-! ## The words on a stack -/

/-- The words lie in memory from `top` up. -/
def StackAt (mem : Bytes) : UInt32 → List UInt32 → Prop
  | _, [] => True
  | top, word :: words => mem.load32 top = word ∧ StackAt mem (top + 4) words

namespace StackAt

variable {mem mem' : Bytes} {top value word : UInt32} {words front back : List UInt32}

@[simp] theorem nil : StackAt mem top [] := trivial

@[simp] theorem cons_iff :
    StackAt mem top (word :: words) ↔ mem.load32 top = word ∧ StackAt mem (top + 4) words := Iff.rfl

/-- A stack looks at nothing but its own words. -/
theorem congr (stack : StackAt mem top words)
    (same : ∀ address ∈ Span top (4 * words.length), mem' address = mem address) :
    StackAt mem' top words := by
  induction words generalizing top with
  | nil => trivial
  | cons word words ih =>
      obtain ⟨first, rest⟩ := stack
      rw [List.length_cons] at same
      constructor
      · rw [← first]
        exact Bytes.load32_congr fun address inside => same address (Span.mono (by omega) inside)
      · exact ih rest fun address inside =>
          same address (Span.shift_subset (by have four : (4 : UInt32).toNat = 4 := rfl; omega) inside)

/-- A word stored below the top is the new top. -/
theorem push (stack : StackAt mem top words) (fits : 4 * (words.length + 1) ≤ 2 ^ 32) :
    StackAt (mem.store32 (top - 4) value) (top - 4) (value :: words) := by
  have above : top - 4 + 4 = top := UInt32.sub_add_cancel top 4
  refine ⟨Bytes.load32_store32 value, ?_⟩
  rw [above]
  refine stack.congr fun address inside => Bytes.store32_of_notMem fun below => ?_
  rw [Span.mem_def] at inside below
  have split : address - (top - 4) = address - top + 4 := by grind
  have four : (4 : UInt32).toNat = 4 := rfl
  rw [split, UInt32.toNat_add, four, Nat.mod_eq_of_lt (by omega)] at below
  omega

/-- What is below the first words. -/
theorem drop (stack : StackAt mem top (front ++ back)) :
    StackAt mem (top + UInt32.ofNat (4 * front.length)) back := by
  induction front generalizing top with
  | nil => simpa using stack
  | cons word front ih =>
      have rest := ih stack.2
      have next : top + UInt32.ofNat (4 * (word :: front).length) =
          top + 4 + UInt32.ofNat (4 * front.length) := by
        rw [List.length_cons, Nat.mul_add, UInt32.ofNat_add]
        grind
      rw [next]
      exact rest

/-- What `push` does to the stack. -/
theorem pushed {c : Cpu} (stack : StackAt c.mem (c.general .esp) words) (value : UInt32)
    (fits : 4 * (words.length + 1) ≤ 2 ^ 32) :
    StackAt (c.push value).mem ((c.push value).general .esp) (value :: words) := by
  rw [Cpu.push_esp]
  exact stack.push fits

end StackAt

/-- The words have been pushed, the last one first, and nothing else was done to the
stack. -/
structure Pushed (before after : Cpu) (words : List UInt32) : Prop where
  stack : StackAt after.mem (after.general .esp) words
  esp : after.general .esp = before.general .esp - UInt32.ofNat (4 * words.length)

namespace Pushed

variable {before after later : Cpu} {words : List UInt32}

theorem nil (c : Cpu) : Pushed c c [] where
  stack := .nil
  esp := (UInt32.sub_zero _).symm

theorem push (pushed : Pushed before after words) (value : UInt32)
    (fits : 4 * (words.length + 1) ≤ 2 ^ 32) :
    Pushed before (after.push value) (value :: words) where
  stack := pushed.stack.pushed value fits
  esp := by
    rw [Cpu.push_esp, pushed.esp, List.length_cons, Nat.mul_add, UInt32.ofNat_add]
    grind

theorem pushes {values : List UInt32} (pushed : Pushed before after words)
    (fits : 4 * (values.length + words.length) ≤ 2 ^ 32) :
    Pushed before (after.pushes values) (values.reverse ++ words) := by
  induction values generalizing after words with
  | nil => exact pushed
  | cons value values ih =>
      rw [List.length_cons] at fits
      rw [List.reverse_cons, List.append_assoc]
      exact ih (pushed.push value (by omega)) (by rw [List.singleton_append, List.length_cons]; omega)

/-- What leaves memory and the stack pointer alone. -/
theorem of_same (pushed : Pushed before after words) (mem : later.mem = after.mem)
    (esp : later.general .esp = after.general .esp) : Pushed before later words where
  stack := by
    rw [mem, esp]
    exact pushed.stack
  esp := esp.trans pushed.esp

end Pushed

end Base
