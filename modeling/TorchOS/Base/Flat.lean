import TorchOS.Base.Segmented

/-!
# Flat segments

While every segment register holds a flat segment, the processor with segments does what
the one without them does: straight-line code that keeps its stack in some part of memory,
loads of the selectors that are there already, `iret` within ring 0 and interrupts
through gates to the code segment in use. `Room` is what is left of that part of memory
below and above the stack pointer.
-/

namespace Base

/-! ## Room on the stack -/

/-- How many bytes an instruction pushes and pops, for instructions that do not set the
stack pointer otherwise, nor reach memory elsewhere, nor load a segment register. -/
def Instruction.stackUse : Instruction → Option (Nat × Nat)
  | .push _ => some (4, 0)
  | .pushByte _ => some (4, 0)
  | .pop target => if target = .esp then none else some (0, 4)
  | .pusha => some (32, 0)
  | .popa => some (0, 32)
  | .set target _ => if target = .esp then none else some (0, 0)
  | .setLow target _ => if target = .esp then none else some (0, 0)
  | .readSegment target _ => if target = .esp then none else some (0, 0)
  | .readCr3 target => if target = .esp then none else some (0, 0)
  | .add target value => some (if target = .esp then (0, value.toNat) else (0, 0))
  | .cmp _ _ => some (0, 0)
  | .writeCr3 _ => some (0, 0)
  | .cli => some (0, 0)
  | .sti => some (0, 0)
  | .ret => some (0, 4)
  | _ => none

/-- The stack pointer is `below` bytes above `low`, with room for `above` bytes over it. -/
structure Room (low below above : Nat) (c : Cpu) : Prop where
  esp : (c.general .esp).toNat = low + below
  fits : low + below + above < 2 ^ 32

/-- The room that straight-line code leaves below and above, if it never needs more than
there is. -/
def roomAfter : List Instruction → Nat → Nat → Option (Nat × Nat)
  | [], below, above => some (below, above)
  | instruction :: code, below, above => do
      let (pushed, popped) ← instruction.stackUse
      if pushed ≤ below ∧ popped ≤ above then
        roomAfter code (below - pushed + popped) (above + pushed - popped)
      else none

namespace Cpu

variable (c : Cpu)

theorem pushes_esp (words : List UInt32) :
    (c.pushes words).general .esp = c.general .esp - UInt32.ofNat (4 * words.length) := by
  induction words generalizing c with
  | nil => simp [pushes]
  | cons word words ih =>
      have next : c.pushes (word :: words) = (c.push word).pushes words := rfl
      rw [next, ih, push_esp, List.length_cons, Nat.mul_add, UInt32.ofNat_add]
      grind

theorem pushes_other (words : List UInt32) {register : Register} (other : register ≠ .esp) :
    (c.pushes words).general register = c.general register := by
  induction words generalizing c with
  | nil => rfl
  | cons word words ih => exact (ih (c.push word)).trans (push_other word c other)

theorem popa_esp : c.popa.general .esp = c.general .esp + 32 := by
  simp [popa, pop, setGeneral, UInt32.add_assoc]

end Cpu

namespace Room

variable {low below above pushed popped : Nat} {c : Cpu} {instruction : Instruction}

/-- What an instruction does to the stack pointer. -/
theorem step_esp (use : instruction.stackUse = some (pushed, popped)) :
    (c.step instruction).general .esp =
      c.general .esp - UInt32.ofNat pushed + UInt32.ofNat popped := by
  have down : ∀ value : UInt32, value - UInt32.ofNat pushed + UInt32.ofNat 0 =
      value - UInt32.ofNat pushed := fun value => UInt32.add_zero _
  have up : ∀ value : UInt32, value - UInt32.ofNat 0 + UInt32.ofNat popped =
      value + UInt32.ofNat popped := fun value => by simp
  have still : ∀ value : UInt32, value - UInt32.ofNat 0 + UInt32.ofNat 0 = value := by simp
  cases instruction <;> simp only [Instruction.stackUse, reduceCtorEq, Option.some.injEq,
    Prod.mk.injEq, Option.ite_none_left_eq_some] at use
  case push => rcases use with ⟨rfl, rfl⟩; rw [down]; exact c.push_esp _
  case pushByte => rcases use with ⟨rfl, rfl⟩; rw [down]; exact c.push_esp _
  case pop => rcases use with ⟨other, rfl, rfl⟩; rw [up]; exact c.pop_esp other
  case pusha => rcases use with ⟨rfl, rfl⟩; rw [down]; exact c.pushes_esp _
  case popa => rcases use with ⟨rfl, rfl⟩; rw [up]; exact c.popa_esp
  case ret => rcases use with ⟨rfl, rfl⟩; rw [up]; simp [Cpu.step, Cpu.ret, Cpu.setGeneral]
  case add target value =>
    by_cases same : target = .esp
    · rw [if_pos same] at use
      obtain ⟨rfl, rfl⟩ := Prod.mk.inj use
      rw [up, UInt32.ofNat_toNat]
      simp [Cpu.step, Cpu.setGeneral, Cpu.setStatus, same]
    · rw [if_neg same] at use
      obtain ⟨rfl, rfl⟩ := Prod.mk.inj use
      rw [still]
      simp [Cpu.step, Cpu.setGeneral, Cpu.setStatus, Ne.symm same]
  case set | setLow | readSegment | readCr3 =>
    rcases use with ⟨other, rfl, rfl⟩
    rw [still]
    simp [Cpu.step, Cpu.setGeneral, Cpu.setLow, Ne.symm other]
  all_goals
    rcases use with ⟨rfl, rfl⟩
    rw [still]
    rfl

theorem step (room : Room low below above c) (use : instruction.stackUse = some (pushed, popped))
    (down : pushed ≤ below) (up : popped ≤ above) :
    Room low (below - pushed + popped) (above + pushed - popped) (c.step instruction) where
  esp := by
    obtain ⟨esp, fits⟩ := room
    rw [step_esp use, UInt32.toNat_add, UInt32.toNat_sub, UInt32.toNat_ofNat',
      UInt32.toNat_ofNat', esp]
    omega
  fits := by
    have fits := room.fits
    omega

/-- Pushes stay in memory. -/
theorem push_inside (room : Room low below above c) {words : Nat} (enough : 4 * words ≤ below) :
    ∀ access ∈ pushAccesses words c, access.offset.toNat + access.size ≤ 2 ^ 32 := by
  obtain ⟨esp, fits⟩ := room
  intro access member
  obtain ⟨word, early, rfl⟩ := List.mem_map.mp member
  rw [List.mem_range] at early
  dsimp only
  rw [UInt32.toNat_sub, UInt32.toNat_ofNat', esp]
  omega

/-- Pops stay in memory. -/
theorem pop_inside (room : Room low below above c) {words : Nat} (enough : 4 * words ≤ above) :
    ∀ access ∈ popAccesses words c, access.offset.toNat + access.size ≤ 2 ^ 32 := by
  obtain ⟨esp, fits⟩ := room
  intro access member
  obtain ⟨word, early, rfl⟩ := List.mem_map.mp member
  rw [List.mem_range] at early
  dsimp only
  rw [UInt32.toNat_add, UInt32.toNat_ofNat', esp]
  omega

/-- The accesses of an instruction stay in memory. -/
theorem accesses (room : Room low below above c)
    (use : instruction.stackUse = some (pushed, popped)) (down : pushed ≤ below)
    (up : popped ≤ above) :
    ∀ access ∈ instruction.accesses c, access.offset.toNat + access.size ≤ 2 ^ 32 := by
  cases instruction <;> simp only [Instruction.stackUse, reduceCtorEq, Option.some.injEq,
    Prod.mk.injEq, Option.ite_none_left_eq_some] at use
  case push | pushByte => exact room.push_inside (by omega)
  case pusha => exact room.push_inside (by omega)
  case pop => exact room.pop_inside (by omega)
  case ret => exact room.pop_inside (by omega)
  case popa => exact room.pop_inside (by omega)
  all_goals simp [Instruction.accesses]

/-- The room that pushes leave. -/
theorem pushes (room : Room low below above c) {words : List UInt32}
    (enough : 4 * words.length ≤ below) :
    Room low (below - 4 * words.length) (above + 4 * words.length) (c.pushes words) := by
  obtain ⟨esp, fits⟩ := room
  constructor
  · rw [Cpu.pushes_esp, UInt32.toNat_sub, UInt32.toNat_ofNat', esp]
    omega
  · omega

/-- Pushes write nowhere but on the stack. -/
theorem pushes_frame (room : Room low below above c) {words : List UInt32}
    (enough : 4 * words.length ≤ below) {address : UInt32}
    (outside : address ∉ Span (UInt32.ofNat low) (below + above)) :
    (c.pushes words).mem address = c.mem address := by
  induction words generalizing c below above with
  | nil => rfl
  | cons word words ih =>
      rw [List.length_cons] at enough
      obtain ⟨esp, fits⟩ := room
      have next : Room low (below - 4) (above + 4) (c.push word) := by
        constructor
        · have four : (4 : UInt32).toNat = 4 := rfl
          rw [Cpu.push_esp, UInt32.toNat_sub, four, esp]
          omega
        · omega
      have total : below - 4 + (above + 4) = below + above := by omega
      have rest := ih next (by omega) (total ▸ outside)
      have first : (c.push word).mem address = c.mem address := by
        rw [Cpu.push_mem]
        apply Bytes.store32_of_notMem
        intro inside
        apply outside
        rw [Span.mem_def] at inside ⊢
        have four : (4 : UInt32).toNat = 4 := rfl
        have wide := address.toNat_lt
        rw [UInt32.toNat_sub, UInt32.toNat_sub, four, esp] at inside
        rw [UInt32.toNat_sub, UInt32.toNat_ofNat']
        omega
      exact rest.trans first

/-- An instruction writes nowhere but on the stack. -/
theorem frame (room : Room low below above c)
    (use : instruction.stackUse = some (pushed, popped)) (down : pushed ≤ below) {address : UInt32}
    (outside : address ∉ Span (UInt32.ofNat low) (below + above)) :
    (c.step instruction).mem address = c.mem address := by
  cases instruction <;> simp only [Instruction.stackUse, reduceCtorEq, Option.some.injEq,
    Prod.mk.injEq, Option.ite_none_left_eq_some] at use
  case push source =>
    have one : 4 * [c.general source].length ≤ below := by rw [List.length_singleton]; omega
    exact room.pushes_frame one outside
  case pushByte value =>
    have one : 4 * [value.toInt32.toUInt32].length ≤ below := by rw [List.length_singleton]; omega
    exact room.pushes_frame one outside
  case pusha =>
    refine room.pushes_frame ?_ outside
    simp only [List.length_cons, List.length_nil]
    omega
  all_goals rfl

/-- What holds after code that finds enough room. -/
theorem execute (room : Room low below above c) {code : List Instruction} {below' above' : Nat}
    (enough : roomAfter code below above = some (below', above')) :
    Room low below' above' (c.execute code) ∧ below' + above' = below + above ∧
      ∀ address, address ∉ Span (UInt32.ofNat low) (below + above) →
        (c.execute code).mem address = c.mem address := by
  induction code generalizing c below above with
  | nil =>
      obtain ⟨rfl, rfl⟩ := Prod.mk.inj (Option.some.inj enough)
      exact ⟨room, rfl, fun _ _ => rfl⟩
  | cons instruction code ih =>
      rw [roomAfter, Option.bind_eq_bind, Option.bind_eq_some_iff] at enough
      obtain ⟨⟨pushed, popped⟩, use, enough⟩ := enough
      obtain ⟨⟨down, up⟩, enough⟩ := Option.ite_none_right_eq_some.mp enough
      obtain ⟨after, total, frame⟩ := ih (room.step use down up) enough
      have same : below - pushed + popped + (above + pushed - popped) = below + above := by omega
      rw [same] at total frame
      exact ⟨after, total, fun address outside =>
        (frame address outside).trans (room.frame use down outside)⟩

end Room

/-! ## The flat processor -/

namespace Segmented

variable {s : Segmented} {register : SegmentRegister} {selector : UInt16} {d : Descriptor}
  {low below above : Nat}

/-- Every segment register holds a flat segment: `cs` of code, and the others of data. -/
def FlatSegments (s : Segmented) : Prop :=
  ∀ register, ∃ d, s.cached register = some d ∧ d.Flat ∧ d.executable = decide (register = .cs)

/-- Through a flat segment memory is reached as without segments. -/
theorem through_flat (flat : s.FlatSegments) (register : SegmentRegister)
    (data : register ≠ .cs) {accesses : List Access}
    (inside : ∀ access ∈ accesses, access.offset.toNat + access.size ≤ 2 ^ 32)
    (action : Cpu → Cpu) :
    s.through register accesses action = .ok { s with cpu := action s.cpu } := by
  obtain ⟨d, cached, isFlat, executable⟩ := flat register
  rw [decide_eq_false data] at executable
  have permitted : accesses.all (s.permits register) := by
    rw [List.all_eq_true]
    intro access member
    simpa [permits, cached, isFlat.allows executable, isFlat.covers_iff] using inside access member
  simp [through, permitted, cached, isFlat.base]

theorem pushes_flat (flat : s.FlatSegments) (room : Room low below above s.cpu)
    {words : List UInt32} (enough : 4 * words.length ≤ below) :
    s.pushes words = .ok { s with cpu := s.cpu.pushes words } :=
  through_flat flat .ss (by decide) (room.push_inside enough) _

/-- So instructions do what they do without segments. -/
theorem step_flat (flat : s.FlatSegments) (room : Room low below above s.cpu)
    {instruction : Instruction} {pushed popped : Nat}
    (use : instruction.stackUse = some (pushed, popped)) (down : pushed ≤ below)
    (up : popped ≤ above) :
    s.step instruction = .ok { s with cpu := s.cpu.step instruction } := by
  have inside := room.accesses use down up
  cases instruction <;> simp only [Instruction.stackUse, reduceCtorEq] at use <;>
    exact through_flat flat _ (by simp [Instruction.segment]) inside _

theorem execute_flat (flat : s.FlatSegments) (room : Room low below above s.cpu)
    {code : List Instruction} {below' above' : Nat}
    (enough : roomAfter code below above = some (below', above')) :
    s.execute code = .ok { s with cpu := s.cpu.execute code } := by
  induction code generalizing s below above with
  | nil => rfl
  | cons instruction code ih =>
      rw [roomAfter, Option.bind_eq_bind, Option.bind_eq_some_iff] at enough
      obtain ⟨⟨pushed, popped⟩, use, enough⟩ := enough
      obtain ⟨⟨down, up⟩, enough⟩ := Option.ite_none_right_eq_some.mp enough
      rw [execute, List.foldlM_cons, step_flat flat room use down up]
      exact ih flat (room.step use down up) enough

theorem executeSystem_append (first second : List SystemInstruction) :
    s.executeSystem (first ++ second) = (s.executeSystem first >>= executeSystem second) :=
  List.foldlM_append

/-- A word above the stack pointer is loaded. -/
theorem step_loadWord (flat : s.FlatSegments) (room : Room low below above s.cpu)
    (target : Register) {offset : UInt32} (up : offset.toNat + 4 ≤ above) :
    s.step (.load target .esp offset) =
      .ok { s with cpu := s.cpu.step (.load target .esp offset) } := by
  refine through_flat flat _ (by simp [Instruction.segment, Register.segment]) ?_ _
  obtain ⟨esp, fits⟩ := room
  simp only [Instruction.accesses, List.mem_singleton, forall_eq]
  rw [UInt32.toNat_add, esp]
  omega

/-- A pseudo-descriptor is read. -/
theorem readTable_flat (flat : s.FlatSegments) {pointer : Register} {table : TableRegister}
    (fits : (s.cpu.general pointer).toNat + 6 ≤ 2 ^ 32)
    (stored : s.cpu.mem.read (s.cpu.general pointer) 6 = table.pseudoBytes) :
    s.readTable pointer = .ok table := by
  obtain ⟨d, cached, isFlat, executable⟩ := flat pointer.segment
  have data : pointer.segment ≠ .cs := by
    unfold Register.segment
    split <;> simp
  rw [decide_eq_false data] at executable
  have permitted : s.permits pointer.segment ⟨.read, s.cpu.general pointer, 6⟩ := by
    simpa [permits, cached, isFlat.allows executable, isFlat.covers_iff] using fits
  simp [readTable, permitted, cached, isFlat.base, TableRegister.load_eq stored]

theorem execute_append (first second : List Instruction) :
    s.execute (first ++ second) = (s.execute first >>= execute second) :=
  List.foldlM_append

/-! ## Loading flat segments -/

/-- A result is handed on. -/
@[simp] theorem ok_bind {α β : Type} (result : α) (next : α → Except Fault β) :
    (Except.ok result >>= next) = next result := rfl

/-- What succeeded had a result to hand on. -/
theorem ok_of_bind {α β : Type} {first : Except Fault α} {next : α → Except Fault β} {result : β}
    (succeeds : (first >>= next) = .ok result) :
    ∃ middle, first = .ok middle ∧ next middle = .ok result := by
  cases first with
  | error fault => cases succeeds
  | ok middle => exact ⟨middle, rfl, succeeds⟩

section Load

variable (found : s.lookup selector = .ok d) (isFlat : d.Flat)
  (named : nullSelector selector = false) (ring : selectorRing selector = 0)

include found isFlat named ring

theorem loadData_flat (target : Segment) :
    s.loadData target selector = .ok (s.take (.data target) selector d) := by
  simp [loadData, named, found, isFlat.checkData ring]

theorem loadStack_flat (data : d.executable = false) :
    s.loadStack selector = .ok (s.take .ss selector d) := by
  simp [loadStack, named, found, isFlat.checkStack data ring]

theorem loadCode_flat (code : d.executable) (offset : UInt32) :
    s.loadCode selector offset =
      .ok (take .cs selector d { s with cpu := { s.cpu with eip := offset } }) := by
  have covered : d.covers offset 1 := isFlat.covers_iff.mpr offset.toNat_lt
  simp [loadCode, named, found, isFlat.checkCode code ring, covered]

end Load

/-! ## Loading a segment once more -/

/-- A segment register holds what the table has for a selector, marked already. -/
def Settled (s : Segmented) (register : SegmentRegister) (selector : UInt16) : Prop :=
  ∃ d, s.cached register = some d ∧ s.lookup selector = .ok d ∧ d.accessed = d

/-- The byte that a load marks. -/
theorem access_of_lookup (found : s.lookup selector = .ok d) :
    s.cpu.mem (s.gdtr.entry (selectorIndex selector) + 5) = d.access := by
  unfold lookup at found
  split at found
  · cases found
  · split at found
    · rw [← Except.ok.inj found]
      rfl
    · cases found

/-- Only the selector changes. -/
theorem take_settled (cached : s.cached register = some d) (found : s.lookup selector = .ok d)
    (marked : d.accessed = d) : s.take register selector d = s.setSelector register selector := by
  have kept : s.cpu.mem.store8 (s.gdtr.entry (selectorIndex selector) + 5) d.access =
      s.cpu.mem := by
    rw [← access_of_lookup found]
    exact Bytes.store8_self
  rw [take, marked, kept, ← cached, Function.update_eq_self]

theorem loadData_settled {target : Segment} (flat : s.FlatSegments)
    (settled : s.Settled (.data target) selector) (named : nullSelector selector = false)
    (ring : selectorRing selector = 0) :
    s.loadData target selector = .ok (s.setSelector (.data target) selector) := by
  obtain ⟨d, cached, found, marked⟩ := settled
  obtain ⟨kept, same, isFlat, -⟩ := flat (.data target)
  obtain rfl : d = kept := Option.some.inj (cached.symm.trans same)
  rw [loadData_flat found isFlat named ring, take_settled cached found marked]

theorem loadCode_settled (flat : s.FlatSegments) (settled : s.Settled .cs selector)
    (named : nullSelector selector = false) (ring : selectorRing selector = 0) (offset : UInt32) :
    s.loadCode selector offset =
      .ok (setSelector .cs selector { s with cpu := { s.cpu with eip := offset } }) := by
  obtain ⟨d, cached, found, marked⟩ := settled
  obtain ⟨kept, same, isFlat, executable⟩ := flat .cs
  obtain rfl : d = kept := Option.some.inj (cached.symm.trans same)
  rw [loadCode_flat found isFlat named ring (by simpa using executable)]
  exact congrArg Except.ok (take_settled cached found marked)

/-- `mov` of the selector that a segment register holds already. -/
theorem step_writeSegment {target : Segment} {source : Register} (flat : s.FlatSegments)
    (settled : s.Settled (.data target) selector) (named : nullSelector selector = false)
    (ring : selectorRing selector = 0) (holds : (s.cpu.general source).toUInt16 = selector) :
    s.step (.writeSegment target source) =
      .ok { s with cpu := s.cpu.step (.writeSegment target source) } := by
  rw [step, holds, loadData_settled flat settled named ring, setSelector, ← holds]
  rfl

/-- `iret` to the code segment that `cs` holds already. -/
theorem step_iret (flat : s.FlatSegments) (settled : s.Settled .cs selector)
    (named : nullSelector selector = false) (ring : selectorRing selector = 0)
    (room : Room low below above s.cpu) (up : 12 ≤ above)
    (notNested : s.cpu.eflags &&& nestedFlag = 0) (returnsTo : s.cpu.iret.cs = selector)
    (notVirtual : s.cpu.iret.eflags &&& virtualFlag = 0) :
    s.step .iret = .ok { s with cpu := s.cpu.step .iret } := by
  have inside : ∀ access ∈ Instruction.accesses s.cpu .iret,
      access.offset.toNat + access.size ≤ 2 ^ 32 := room.pop_inside up
  have popped := through_flat flat .ss (by decide) inside Cpu.iret
  have settledThere : Settled { s with cpu := s.cpu.iret } .cs selector := settled
  have flatThere : FlatSegments { s with cpu := s.cpu.iret } := flat
  have jump := loadCode_settled flatThere settledThere named ring s.cpu.iret.eip
  rw [step, iret, notNested, popped]
  simp [notVirtual, returnsTo, ring, jump, setSelector]
  rw [← returnsTo]
  rfl

/-- Loads of what the segment registers hold already. -/
theorem execute_writeSegments {source : Register} (flat : s.FlatSegments)
    (settled : ∀ segment, s.Settled (.data segment) selector)
    (named : nullSelector selector = false) (ring : selectorRing selector = 0)
    (holds : (s.cpu.general source).toUInt16 = selector)
    (targets : List Segment) :
    s.execute (targets.map (.writeSegment · source)) =
      .ok { s with cpu := s.cpu.execute (targets.map (.writeSegment · source)) } := by
  induction targets generalizing s with
  | nil => rfl
  | cons target targets ih =>
      have next := step_writeSegment flat (settled target) named ring holds
      rw [List.map_cons, execute, List.foldlM_cons, next, ok_bind]
      have settledThere : ∀ segment,
          Settled { s with cpu := s.cpu.step (.writeSegment target source) } (.data segment)
            selector := settled
      have flatThere : FlatSegments
          { s with cpu := s.cpu.step (.writeSegment target source) } := flat
      exact ih flatThere settledThere holds

/-- Where the table entry is not written, a segment register stays settled. -/
theorem Settled.frame (settled : s.Settled register selector) {c : Cpu}
    (same : ∀ address ∈ Span (s.gdtr.entry (selectorIndex selector)) 8,
      c.mem address = s.cpu.mem address) :
    Settled { s with cpu := c } register selector := by
  obtain ⟨d, cached, found, marked⟩ := settled
  refine ⟨d, cached, ?_, marked⟩
  rw [← found, lookup, lookup]
  have bytes : s.gdtr.bytes (selectorIndex selector) c.mem =
      s.gdtr.bytes (selectorIndex selector) s.cpu.mem := Bytes.read_congr same
  rw [bytes]

/-- An interrupt through a gate to the code segment that `cs` holds already. -/
theorem deliver_flat (flat : s.FlatSegments) {vector : UInt8} {external : UInt16}
    {errorCode : List UInt32} {gate : Gate} (found : s.gate vector external = .ok gate)
    (settled : s.Settled .cs gate.selector) (named : nullSelector gate.selector = false)
    (ring : selectorRing gate.selector = 0)
    (plain : selectorError gate.selector = gate.selector) (room : Room low below above s.cpu)
    (enough : 4 * (3 + errorCode.length) ≤ below)
    (apart : Disjoint (Span (UInt32.ofNat low) (below + above))
      (Span (s.gdtr.entry (selectorIndex gate.selector)) 8)) :
    s.deliver vector errorCode external =
      .ok { s with
        cpu := { s.cpu.pushes ([s.cpu.eflags, s.cpu.cs.toUInt32, s.cpu.eip] ++ errorCode) with
          eip := gate.offset
          cs := gate.selector
          eflags := s.cpu.eflags &&& ~~~clearedFlags } } := by
  have words : 4 * ([s.cpu.eflags, s.cpu.cs.toUInt32, s.cpu.eip] ++ errorCode).length ≤ below := by
    simp only [List.length_append, List.length_cons, List.length_nil]
    omega
  rw [deliver, found, ok_bind]
  generalize [s.cpu.eflags, s.cpu.cs.toUInt32, s.cpu.eip] ++ errorCode = values at words ⊢
  have pushed := pushes_flat flat room words
  obtain ⟨d, cached, lookedUp, marked⟩ := settled
  obtain ⟨kept, same, isFlat, executable⟩ := flat .cs
  obtain rfl : d = kept := Option.some.inj (cached.symm.trans same)
  have code : s.gateCode gate = .ok d := by
    have covered : d.covers gate.offset 1 := isFlat.covers_iff.mpr gate.offset.toNat_lt
    simp [gateCode, named, lookedUp, plain, isFlat.checkCode (by simpa using executable) ring,
      covered]
  have settledThere : Settled { s with cpu := s.cpu.pushes values } .cs gate.selector :=
    Settled.frame ⟨d, cached, lookedUp, marked⟩ fun address inside =>
      room.pushes_frame words (Set.disjoint_right.mp apart inside)
  obtain ⟨again, cachedThere, foundThere, -⟩ := settledThere
  obtain rfl : d = again := Option.some.inj (cached.symm.trans cachedThere)
  rw [code, pushed]
  simp only [Except.mapError, ok_bind, plain]
  rw [take_settled]
  · rfl
  · exact cached
  · exact foundThere
  · exact marked

end Segmented

end Base
