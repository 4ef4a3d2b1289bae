import Mathlib.Tactic.Common
import Mathlib.Logic.Function.Basic
import Mathlib.Data.Fin.Tuple.Basic
import Mathlib.Order.Fin.Basic

/-!
# A cascade of two interrupt controllers

The 8259A with edge-triggered inputs in fully nested mode. A controller latches the
requests of its eight lines, interrupts for the first one that no line of as high a
priority keeps waiting, and keeps a line in service from its acknowledgement to the end
of interrupt that names no line. Priority rotation, special modes and polling are left
out. In a `Cascade` the slave's output is line 2 of the master.
-/

namespace Base

/-- The eight lines of a controller, of which line 0 has the highest priority. -/
abbrev Lines := Fin 8 → Bool

/-- What a controller takes the next byte at its data port for. -/
inductive Expects where
  | offset (single mode : Bool)
  | wiring (mode : Bool)
  | mode
  | mask
  deriving DecidableEq

/-- What a controller has been programmed with. -/
structure Setup where
  expects : Expects
  offset : UInt8
  wiring : UInt8
  automatic : Bool
  mask : UInt8
  deriving DecidableEq

namespace Setup

/-- `ICW1` starts the initialization over. -/
def restart (value : UInt8) (setup : Setup) : Setup :=
  { setup with
    expects := .offset (value &&& 0x02 != 0) (value &&& 0x01 != 0)
    automatic := false
    mask := 0 }

/-- `ICW2`, `ICW3` and `ICW4` in turn, and the mask from then on. -/
def data (value : UInt8) (setup : Setup) : Setup :=
  match setup.expects with
  | .offset single mode =>
      { setup with
        expects := if !single then .wiring mode else if mode then .mode else .mask
        offset := value &&& 0xF8 }
  | .wiring mode => { setup with expects := if mode then .mode else .mask, wiring := value }
  | .mode => { setup with expects := .mask, automatic := value &&& 0x02 != 0 }
  | .mask => { setup with mask := value }

/-- A line is masked. -/
def masks (setup : Setup) (line : Fin 8) : Bool := setup.mask.toNat.testBit line

end Setup

/-- A controller: its setup, and its request and in-service registers. -/
structure Controller where
  setup : Setup
  requested : Lines
  serviced : Lines

namespace Controller

variable (controller : Controller) (line : Fin 8)

/-- A line in service keeps the lines of its own priority and below waiting. -/
def waits : Bool := decide (∃ other ≤ line, controller.serviced other)

/-- The line a controller interrupts for. -/
def pending : Option (Fin 8) :=
  if controller.setup.expects = .mask then
    Fin.find? fun line =>
      controller.requested line && !controller.setup.masks line && !controller.waits line
  else none

/-- A line rises, which latches its request. -/
def raise : Controller :=
  { controller with requested := Function.update controller.requested line true }

/-- A line falls before it is acknowledged. -/
def withdraw : Controller :=
  { controller with requested := Function.update controller.requested line false }

/-- The processor acknowledges the line, which goes into service. -/
def serve : Controller where
  setup := controller.setup
  requested := Function.update controller.requested line false
  serviced := Function.update controller.serviced line (!controller.setup.automatic)

/-- The end of an interrupt takes the line of the highest priority out of service. -/
def endOfInterrupt : Controller :=
  match Fin.find? controller.serviced with
  | some line => { controller with serviced := Function.update controller.serviced line false }
  | none => controller

/-- A byte at the command port. -/
def command (value : UInt8) (controller : Controller) : Controller :=
  if value &&& 0x10 ≠ 0 then
    { controller with
      setup := controller.setup.restart value
      requested := fun _ => false }
  else if value &&& 0xF8 = 0x20 then controller.endOfInterrupt
  else controller

/-- A byte at the data port. -/
def data (value : UInt8) (controller : Controller) : Controller :=
  { controller with setup := controller.setup.data value }

/-- No line is in service. -/
def Idle : Prop := ∀ line, controller.serviced line = false

/-- No more than one line is in service. -/
def Single : Prop := ∃ line, ∀ other, controller.serviced other = true → other = line

/-- The controller takes requests of every line, until it is told to take the next. -/
structure Open (offset : UInt8) : Prop where
  expects : controller.setup.expects = .mask
  offset : controller.setup.offset = offset
  mask : controller.setup.mask = 0
  automatic : controller.setup.automatic = false

variable {controller line} {offset : UInt8}

@[simp] theorem raise_setup : (controller.raise line).setup = controller.setup := rfl
@[simp] theorem raise_serviced : (controller.raise line).serviced = controller.serviced := rfl
@[simp] theorem withdraw_setup : (controller.withdraw line).setup = controller.setup := rfl
@[simp] theorem withdraw_serviced : (controller.withdraw line).serviced = controller.serviced :=
  rfl
@[simp] theorem serve_setup : (controller.serve line).setup = controller.setup := rfl
@[simp] theorem data_requested (value : UInt8) :
    (data value controller).requested = controller.requested := rfl
@[simp] theorem data_serviced (value : UInt8) :
    (data value controller).serviced = controller.serviced := rfl

@[simp] theorem endOfInterrupt_setup : controller.endOfInterrupt.setup = controller.setup := by
  rw [endOfInterrupt]
  split <;> rfl

@[simp] theorem endOfInterrupt_requested :
    controller.endOfInterrupt.requested = controller.requested := by
  rw [endOfInterrupt]
  split <;> rfl

theorem Idle.single (idle : controller.Idle) : controller.Single :=
  ⟨0, fun other serviced => absurd serviced (by simp [idle other])⟩

theorem Idle.waits (idle : controller.Idle) : controller.waits line = false := by
  simp [Controller.waits, idle _]

/-- An idle controller that is open interrupts for its first request. -/
theorem Open.pending_of_idle (isOpen : controller.Open offset) (idle : controller.Idle) :
    controller.pending = Fin.find? controller.requested := by
  rw [pending, if_pos isOpen.expects]
  congr 1
  funext line
  simp [Setup.masks, isOpen.mask, idle.waits]

theorem Single.serve (idle : controller.Idle) : (controller.serve line).Single := by
  refine ⟨line, fun other serviced => ?_⟩
  by_contra different
  have unserved : (controller.serve line).serviced other = controller.serviced other :=
    Function.update_of_ne different _ _
  rw [unserved, idle other] at serviced
  cases serviced

/-- Behind the first request no other is pending. -/
theorem Open.pending_serve (isOpen : controller.Open offset) (idle : controller.Idle)
    (first : controller.pending = some line) : (controller.serve line).pending = none := by
  rw [isOpen.pending_of_idle idle, Fin.find?_eq_some_iff] at first
  rw [pending, serve_setup, if_pos isOpen.expects, Fin.find?_eq_none_iff]
  intro other
  by_cases below : other < line
  · have apart : other ≠ line := Fin.ne_of_lt below
    simp [Controller.serve, apart, first.2 other below]
  · have above : line ≤ other := Fin.not_lt.mp below
    have served : (controller.serve line).waits other = true := by
      rw [Controller.waits, decide_eq_true_eq]
      exact ⟨line, above, by simp [Controller.serve, isOpen.automatic]⟩
    simp [served]

/-- The end of the only interrupt leaves none. -/
theorem Single.endOfInterrupt (single : controller.Single) : controller.endOfInterrupt.Idle := by
  obtain ⟨only, isOnly⟩ := single
  intro line
  rw [Controller.endOfInterrupt]
  cases found : Fin.find? controller.serviced with
  | none => exact Fin.find?_eq_none_iff.mp found line
  | some first =>
      have serviced := (Fin.find?_eq_some_iff.mp found).1
      by_cases same : line = first
      · simp [same]
      · have other : controller.serviced line = false := by
          by_contra held
          rw [Bool.not_eq_false] at held
          exact same ((isOnly line held).trans (isOnly first serviced).symm)
        simp [same, other]

end Controller

/-- Two controllers, the slave's output on line 2 of the master. -/
structure Cascade where
  master : Controller
  slave : Controller

namespace Cascade

/-- The master's line that the slave is on. -/
def wire : Fin 8 := 2

variable (pair : Cascade) (change : Controller → Controller)

/-- The master changes. -/
def onMaster : Cascade := { pair with master := change pair.master }

/-- The slave changes, and where its output rises the master latches that. -/
def onSlave : Cascade where
  slave := change pair.slave
  master :=
    if pair.slave.pending.isNone && (change pair.slave).pending.isSome then
      pair.master.raise wire
    else pair.master

/-- The processor acknowledges an interrupt and is told a vector: of the first line that is
pending, or of line 7 where none is. `none` is a vector that no controller provides. -/
def acknowledge : Option (UInt8 × Cascade) :=
  match pair.master.pending with
  | none => some (pair.master.setup.offset + 7, pair)
  | some line =>
      let served := pair.onMaster (·.serve line)
      if pair.master.setup.wiring.toNat.testBit line then
        if (pair.slave.setup.wiring &&& 7).toNat = line then
          match pair.slave.pending with
          | none => some (pair.slave.setup.offset + 7, served)
          | some inner =>
              some (pair.slave.setup.offset + UInt8.ofNat inner, served.onSlave (·.serve inner))
        else none
      else some (pair.master.setup.offset + UInt8.ofNat line, served)

/-- No line of either controller is in service. -/
structure Idle : Prop where
  master : pair.master.Idle
  slave : pair.slave.Idle

/-- The master has latched whatever the slave interrupts for. -/
def Latched : Prop := pair.slave.pending.isSome → pair.master.requested wire = true

variable {pair change}

@[simp] theorem onMaster_master : (pair.onMaster change).master = change pair.master := rfl
@[simp] theorem onMaster_slave : (pair.onMaster change).slave = pair.slave := rfl
@[simp] theorem onSlave_slave : (pair.onSlave change).slave = change pair.slave := rfl

@[simp] theorem onSlave_setup : (pair.onSlave change).master.setup = pair.master.setup := by
  rw [onSlave]
  split <;> rfl

@[simp] theorem onSlave_serviced :
    (pair.onSlave change).master.serviced = pair.master.serviced := by
  rw [onSlave]
  split <;> rfl

/-- The slave reaches the master by its own line alone. -/
theorem onSlave_requested {line : Fin 8} (other : line ≠ wire) :
    (pair.onSlave change).master.requested line = pair.master.requested line := by
  rw [onSlave]
  split
  · exact Function.update_of_ne other _ _
  · rfl

/-- Whatever happens to the slave, the master stays informed. -/
theorem Latched.onSlave (latched : pair.Latched) : (pair.onSlave change).Latched := by
  intro interrupts
  rw [onSlave_slave] at interrupts
  rw [Cascade.onSlave]
  by_cases rises : pair.slave.pending.isNone && (change pair.slave).pending.isSome
  · rw [if_pos rises]
    exact Function.update_self wire true pair.master.requested
  · rw [if_neg rises]
    apply latched
    rw [interrupts, Bool.and_true, Option.isNone_iff_eq_none] at rises
    exact Option.isSome_iff_ne_none.mpr rises

theorem Latched.onMaster (latched : pair.Latched)
    (keeps : pair.master.requested wire = true →
      (change pair.master).requested wire = true) : (pair.onMaster change).Latched :=
  fun interrupts => keeps (latched interrupts)

/-! ## The inputs of a cascade -/

end Cascade

/-- An input of the cascade. -/
inductive Input where
  | master (line : Fin 8)
  | slave (line : Fin 8)
  deriving DecidableEq

namespace Input

/-- The input that the slave's output takes. -/
def wired : Input := .master Cascade.wire

/-- The inputs in the order of their priority: the slave's lie where its output does. -/
def priority : Input → Nat
  | .master line => if line < Cascade.wire then line else line + 8
  | .slave line => Cascade.wire + line

/-- The vector of an input, for the offsets of the master and the slave. -/
def vector (high low : UInt8) : Input → UInt8
  | .master line => high + UInt8.ofNat line
  | .slave line => low + UInt8.ofNat line

end Input

namespace Cascade

variable {pair after : Cascade} {input other : Input} {high low : UInt8}

/-- A device raises its line. -/
def raise (pair : Cascade) : Input → Cascade
  | .master line => pair.onMaster (·.raise line)
  | .slave line => pair.onSlave (·.raise line)

/-- A device lowers its line before it is acknowledged. -/
def withdraw (pair : Cascade) : Input → Cascade
  | .master line => pair.onMaster (·.withdraw line)
  | .slave line => pair.onSlave (·.withdraw line)

/-- The request of an input is latched. -/
def requested (pair : Cascade) : Input → Bool
  | .master line => pair.master.requested line
  | .slave line => pair.slave.requested line

/-- Both controllers are open, and each knows where the other is. -/
structure Open (pair : Cascade) (high low : UInt8) : Prop where
  master : pair.master.Open high
  slave : pair.slave.Open low
  masterWiring : pair.master.setup.wiring = 4
  slaveWiring : pair.slave.setup.wiring = 2

theorem Open.congr (isOpen : pair.Open high low) (master : after.master.setup = pair.master.setup)
    (slave : after.slave.setup = pair.slave.setup) : after.Open high low := by
  obtain ⟨⟨_, _, _, _⟩, ⟨_, _, _, _⟩, _, _⟩ := isOpen
  constructor
  · constructor <;> rwa [master]
  · constructor <;> rwa [slave]
  · rwa [master]
  · rwa [slave]

theorem requested_raise (device : input ≠ .wired) (notWired : other ≠ .wired) :
    (pair.raise input).requested other = (pair.requested other || decide (other = input)) := by
  cases input with
  | master line =>
      cases other with
      | master line' =>
          by_cases same : line' = line
          · simp [raise, requested, Controller.raise, same]
          · simp [raise, requested, Controller.raise, same]
      | slave line' => simp [raise, requested]
  | slave line =>
      cases other with
      | master line' =>
          have apart : line' ≠ wire := fun same => notWired (by rw [same]; rfl)
          simp [raise, requested, onSlave_requested apart]
      | slave line' =>
          by_cases same : line' = line
          · simp [raise, requested, Controller.raise, same]
          · simp [raise, requested, Controller.raise, same]

theorem requested_withdraw (notWired : other ≠ .wired) :
    (pair.withdraw input).requested other = (pair.requested other && decide (other ≠ input)) := by
  cases input with
  | master line =>
      cases other with
      | master line' =>
          by_cases same : line' = line
          · simp [withdraw, requested, Controller.withdraw, same]
          · simp [withdraw, requested, Controller.withdraw, same]
      | slave line' => simp [withdraw, requested]
  | slave line =>
      cases other with
      | master line' =>
          have apart : line' ≠ wire := fun same => notWired (by rw [same]; rfl)
          simp [withdraw, requested, onSlave_requested apart]
      | slave line' =>
          by_cases same : line' = line
          · simp [withdraw, requested, Controller.withdraw, same]
          · simp [withdraw, requested, Controller.withdraw, same]

/-- What an acknowledgement that takes an input leaves: its request is gone and it is in
service. Input 7 of a controller is also what is taken where there is no request. -/
structure Takes (pair : Cascade) (input : Input) (after : Cascade) : Prop where
  device : input ≠ .wired
  real : pair.requested input = true ∨ input = .master 7 ∨ input = .slave 7
  first : ∀ other, other ≠ .wired → pair.requested other = true → input.priority ≤ other.priority
  requested : ∀ other, other ≠ .wired →
    after.requested other = (pair.requested other && decide (other ≠ input))
  latched : after.Latched
  masterSetup : after.master.setup = pair.master.setup
  slaveSetup : after.slave.setup = pair.slave.setup
  masterSingle : after.master.Single
  slaveSingle : after.slave.Single
  slaveIdle : ∀ line, input = .master line → after.slave.Idle

/-- Line 2 is the only one that the master is told a slave is on. -/
theorem wiring_master (line : Fin 8) : (4 : UInt8).toNat.testBit line = decide (line = wire) := by
  revert line
  decide

theorem priority_master_le {line line' : Fin 8} (ordered : line ≤ line') :
    (Input.master line).priority ≤ (Input.master line').priority := by
  revert line line'
  decide

theorem priority_slave_le {line line' : Fin 8} (ordered : line ≤ line') :
    (Input.slave line).priority ≤ (Input.slave line').priority := by
  rw [Input.priority, Input.priority]
  omega

/-- What lies before the slave's output goes before the slave. -/
theorem priority_before {line inner : Fin 8} (before : line < wire) :
    (Input.master line).priority ≤ (Input.slave inner).priority := by
  revert line inner
  decide

/-- What lies behind it goes behind. -/
theorem priority_behind {line inner : Fin 8} (behind : wire < line) :
    (Input.slave inner).priority ≤ (Input.master line).priority := by
  revert line inner
  decide

/-- Nothing that is requested goes before the line of the slave that is taken where the
master interrupts for the slave. -/
theorem first_of_slave {inner : Fin 8}
    (silent : ∀ before, before < wire → pair.master.requested before = false)
    (silentSlave : ∀ before, before < inner → pair.slave.requested before = false) (other : Input)
    (notWired : other ≠ .wired) (asked : pair.requested other = true) :
    (Input.slave inner).priority ≤ other.priority := by
  cases other with
  | master line' =>
      apply priority_behind
      by_contra before
      have apart : line' ≠ wire := fun same => notWired (by rw [same]; rfl)
      have strictly : line' < wire := lt_of_le_of_ne (Fin.not_lt.mp before) apart
      rw [requested, silent line' strictly] at asked
      cases asked
  | slave inner' =>
      apply priority_slave_le
      by_contra before
      rw [requested, silentSlave inner' (Fin.not_le.mp before)] at asked
      cases asked

section Acknowledge

variable (isOpen : pair.Open high low) (idle : pair.Idle)

include isOpen idle

/-- The slave has withdrawn what the master interrupts for. -/
theorem takes_slave_none (found : Fin.find? pair.master.requested = some wire)
    (silent : ∀ line, pair.slave.requested line = false) :
    Takes pair (.slave 7) (pair.onMaster (·.serve wire)) where
  device := by decide
  real := .inr (.inr rfl)
  first := first_of_slave (Fin.find?_eq_some_iff.mp found).2
    fun before _ => silent before
  requested := by
    intro other notWired
    cases other with
    | master line' =>
        have apart : line' ≠ wire := fun same => notWired (by rw [same]; rfl)
        simp [requested, Controller.serve, apart]
    | slave line' => simp [requested, silent line']
  latched := by
    intro interrupts
    rw [onMaster_slave, isOpen.slave.pending_of_idle idle.slave,
      Fin.find?_eq_none_iff.mpr silent] at interrupts
    cases interrupts
  masterSetup := rfl
  slaveSetup := rfl
  masterSingle := .serve idle.master
  slaveSingle := idle.slave.single
  slaveIdle := fun _ same => by cases same

/-- A line of the slave is taken, and the slave's line of the master with it. -/
theorem takes_slave {inner : Fin 8} (found : Fin.find? pair.master.requested = some wire)
    (pending : pair.slave.pending = some inner) :
    Takes pair (.slave inner) ((pair.onMaster (·.serve wire)).onSlave (·.serve inner)) := by
  have isFirst := pending
  rw [isOpen.slave.pending_of_idle idle.slave, Fin.find?_eq_some_iff] at isFirst
  have last := isOpen.slave.pending_serve idle.slave pending
  constructor
  case device => exact fun same => by cases same
  case real => exact .inl isFirst.1
  case first =>
    exact first_of_slave (Fin.find?_eq_some_iff.mp found).2 isFirst.2
  case requested =>
    intro other notWired
    cases other with
    | master line' =>
        have apart : line' ≠ wire := fun same => notWired (by rw [same]; rfl)
        simp [requested, onSlave_requested apart, Controller.serve, apart]
    | slave line' =>
        by_cases same : line' = inner
        · simp [requested, Controller.serve, same]
        · simp [requested, Controller.serve, same]
  case latched =>
    intro interrupts
    rw [onSlave_slave, onMaster_slave, last] at interrupts
    cases interrupts
  case masterSetup => exact onSlave_setup
  case slaveSetup => rfl
  case masterSingle =>
    have taken : (pair.master.serve wire).Single := .serve idle.master
    obtain ⟨only, isOnly⟩ := taken
    refine ⟨only, fun other serviced => isOnly other ?_⟩
    rwa [onSlave_serviced] at serviced
  case slaveSingle => exact .serve idle.slave
  case slaveIdle => exact fun _ same => by cases same

variable (latched : pair.Latched)

include latched

/-- A request of the slave is one of the master. -/
theorem wire_requested {inner : Fin 8} (asked : pair.slave.requested inner = true) :
    pair.master.requested wire = true := by
  apply latched
  rw [isOpen.slave.pending_of_idle idle.slave]
  exact Fin.isSome_find?_of_eq_true asked

/-- Nothing that is requested goes before the line the master interrupts for. -/
theorem first_of_master {line : Fin 8} (apart : line ≠ wire)
    (silent : ∀ before, before < line → pair.master.requested before = false) (other : Input)
    (notWired : other ≠ .wired) (asked : pair.requested other = true) :
    (Input.master line).priority ≤ other.priority := by
  cases other with
  | master line' =>
      by_contra before
      rw [requested, silent line'] at asked
      · cases asked
      · by_contra behind
        exact before (priority_master_le (Fin.not_lt.mp behind))
  | slave inner =>
      apply priority_before
      by_contra behind
      have strictly : wire < line := lt_of_le_of_ne (Fin.not_lt.mp behind) apart.symm
      have wired := wire_requested isOpen idle latched asked
      rw [silent wire strictly] at wired
      cases wired

/-- Nothing is requested. -/
theorem takes_none (found : ∀ line, pair.master.requested line = false) :
    Takes pair (.master 7) pair where
  device := by decide
  real := .inr (.inl rfl)
  first := first_of_master isOpen idle latched (by decide) fun before _ => found before
  requested := by
    intro other _
    by_cases same : other = .master 7
    · simp [same, requested, found 7]
    · simp [same]
  latched := latched
  masterSetup := rfl
  slaveSetup := rfl
  masterSingle := idle.master.single
  slaveSingle := idle.slave.single
  slaveIdle := fun _ _ => idle.slave

/-- A line of the master is taken. -/
theorem takes_master {line : Fin 8} (apart : line ≠ wire)
    (found : Fin.find? pair.master.requested = some line) :
    Takes pair (.master line) (pair.onMaster (·.serve line)) where
  device := fun same => apart (Input.master.inj same)
  real := .inl (Fin.find?_eq_some_iff.mp found).1
  first := first_of_master isOpen idle latched apart (Fin.find?_eq_some_iff.mp found).2
  requested := by
    intro other _
    cases other with
    | master line' =>
        by_cases same : line' = line
        · simp [requested, Controller.serve, same]
        · simp [requested, Controller.serve, same]
    | slave line' => simp [requested]
  latched := latched.onMaster fun asked =>
    (Function.update_of_ne apart.symm _ _).trans asked
  masterSetup := rfl
  slaveSetup := rfl
  masterSingle := .serve idle.master
  slaveSingle := idle.slave.single
  slaveIdle := fun _ _ => idle.slave

/-- Where nothing is in service, an acknowledgement takes the request of the highest
priority; where there is none, input 7 of a controller. -/
theorem Open.acknowledge_takes : ∃ input after,
    pair.acknowledge = some (input.vector high low, after) ∧ Takes pair input after := by
  have interrupts := isOpen.master.pending_of_idle idle.master
  rw [acknowledge, isOpen.masterWiring, isOpen.slaveWiring, isOpen.master.offset,
    isOpen.slave.offset]
  cases found : pair.master.pending with
  | none =>
      rw [interrupts] at found
      exact ⟨.master 7, pair, rfl,
        takes_none isOpen idle latched (Fin.find?_eq_none_iff.mp found)⟩
  | some line =>
      rw [interrupts] at found
      by_cases wired : line = wire
      · subst wired
        cases pending : pair.slave.pending with
        | none =>
            have silent := pending
            rw [isOpen.slave.pending_of_idle idle.slave, Fin.find?_eq_none_iff] at silent
            exact ⟨.slave 7, _, rfl, takes_slave_none isOpen idle found silent⟩
        | some inner =>
            exact ⟨.slave inner, _, rfl, takes_slave isOpen idle found pending⟩
      · refine ⟨.master line, _, ?_, takes_master isOpen idle latched wired found⟩
        simp only [wiring_master, wired, decide_false, Bool.false_eq_true, ↓reduceIte]
        rfl

end Acknowledge

end Cascade

end Base
