import TorchOS.Base.Controller
import TorchOS.Base.Run
import TorchOS.Interrupts

/-!
# The interrupt controllers

`pic.c`, and how `irq_handler` and `register_interrupt_handler` use it: the devices, the two
controllers, the processor and the kernel take their steps in any order from the first write of
`init_pic` on. What the controllers are for is said by `Desk`, a set of waiting requests of
which the first one is handled next, and every run of the kernel is one of the desk.
-/

namespace TorchOS.Pic

open Base Interrupts

/-! ## `pic.c` -/

def pic1Command : UInt16 := 0x20
def pic1Data : UInt16 := pic1Command + 1
def pic2Command : UInt16 := 0xA0
def pic2Data : UInt16 := pic2Command + 1
def pic1Offset : UInt8 := 0x20
def pic2Offset : UInt8 := 0x28
def picEoi : UInt8 := 0x20
def icw1Icw4 : UInt8 := 0x01
def icw1Init : UInt8 := 0x10
def icw48086 : UInt8 := 0x01

/-- `outb` -/
structure Out where
  port : UInt16
  data : UInt8
  deriving DecidableEq

/-- `pic_send_eoi` -/
def picSendEoi (irq : UInt8) : List Out :=
  (if irq ≥ 8 then [⟨pic2Command, picEoi⟩] else []) ++ [⟨pic1Command, picEoi⟩]

/-- `init_pic`. `io_wait` jumps to the next instruction. -/
def initPic : List Out :=
  [⟨pic1Command, icw1Init ||| icw1Icw4⟩, ⟨pic2Command, icw1Init ||| icw1Icw4⟩,
    ⟨pic1Data, pic1Offset⟩, ⟨pic2Data, pic2Offset⟩,
    ⟨pic1Data, 4⟩, ⟨pic2Data, 2⟩,
    ⟨pic1Data, icw48086⟩, ⟨pic2Data, icw48086⟩,
    ⟨pic1Data, 0x00⟩, ⟨pic2Data, 0x00⟩]

/-- What a byte at a port does to the controllers. -/
def send (out : Out) (pair : Cascade) : Cascade :=
  if out.port = pic1Command then pair.onMaster (Controller.command out.data)
  else if out.port = pic1Data then pair.onMaster (Controller.data out.data)
  else if out.port = pic2Command then pair.onSlave (Controller.command out.data)
  else if out.port = pic2Data then pair.onSlave (Controller.data out.data)
  else pair

/-! ## The kernel around it -/

variable {Handler : Type}

/-- Where the kernel is: in `init_pic`, in `irq_handler` before it calls the handler of
`int_no`, hanging there, or in any other code. -/
inductive Phase where
  | programming (rest : List Out)
  | running
  | handling (intNo : UInt32) (rest : List Out)
  | hung (intNo : UInt32)

/-- The controllers, the interrupt flag, the kernel and its `interrupt_handlers`. -/
structure System (Handler : Type) where
  pair : Cascade
  interrupts : Bool
  phase : Phase
  interruptHandlers : UInt32 → Option Handler

/-- `register_interrupt_handler` -/
def registerInterruptHandler (n : UInt8) (handler : Handler)
    (interruptHandlers : UInt32 → Option Handler) : UInt32 → Option Handler :=
  Function.update interruptHandlers n.toUInt32 (some handler)

/-- What can happen. -/
inductive Event (Handler : Type) where
  | raise (input : Input)
  | withdraw (input : Input)
  | fall
  | program (out : Out)
  | programmed
  | interrupt (vector : UInt8)
  | eoi (out : Out)
  | call (intNo : UInt32) (handler : Handler)
  | hang (intNo : UInt32)
  | setInterrupts (enabled : Bool)
  | register (n : UInt8) (handler : Handler)

/-- One step. A device can raise its line and lower it again at any time, and the master can
lose what the slave no longer asks for. An interrupt finds the processor in any state, and
`irq_handler` gets the context that the stub saves. Before that calls a handler it cannot be
interrupted; a handler is code like any other, and may enable interrupts. -/
inductive Step (image : Image) : System Handler → Event Handler → System Handler → Prop where
  | raise {s} {input : Input} (device : input ≠ .wired) :
      Step image s (.raise input) { s with pair := s.pair.raise input }
  | withdraw {s} {input : Input} (device : input ≠ .wired) :
      Step image s (.withdraw input) { s with pair := s.pair.withdraw input }
  | fall {s} (silent : s.pair.slave.pending = none) :
      Step image s .fall { s with pair := s.pair.onMaster (·.withdraw Cascade.wire) }
  | program {s} {out : Out} {rest : List Out} (phase : s.phase = .programming (out :: rest)) :
      Step image s (.program out)
        { s with pair := send out s.pair, phase := .programming rest }
  | programmed {s} (phase : s.phase = .programming []) :
      Step image s .programmed { s with phase := .running }
  | interrupt {s} {c : Cpu} {vector : UInt8} {pair : Cascade} {context : Context}
      (phase : s.phase = .running) (enabled : s.interrupts = true)
      (acknowledged : s.pair.acknowledge = some (vector, pair))
      (saved : received image vector 0 c = some context) :
      Step image s (.interrupt vector)
        { s with
          pair := pair
          interrupts := false
          phase := .handling context.intNo (picSendEoi (context.intNo - 32).toUInt8) }
  | eoi {s} {intNo : UInt32} {out : Out} {rest : List Out}
      (phase : s.phase = .handling intNo (out :: rest)) :
      Step image s (.eoi out) { s with pair := send out s.pair, phase := .handling intNo rest }
  | call {s} {intNo : UInt32} {handler : Handler} (phase : s.phase = .handling intNo [])
      (registered : s.interruptHandlers intNo = some handler) :
      Step image s (.call intNo handler) { s with phase := .running }
  | hang {s} {intNo : UInt32} (phase : s.phase = .handling intNo [])
      (missing : s.interruptHandlers intNo = none) :
      Step image s (.hang intNo) { s with phase := .hung intNo }
  | setInterrupts {s} {enabled : Bool} (phase : s.phase = .running) :
      Step image s (.setInterrupts enabled) { s with interrupts := enabled }
  | register {s} {n : UInt8} {handler : Handler} (phase : s.phase = .running) :
      Step image s (.register n handler)
        { s with interruptHandlers := registerInterruptHandler n handler s.interruptHandlers }

/-- The kernel about to call `init_pic`: interrupts are off and none is in service, no
handler is registered, and the controllers are set up in any way. -/
structure Boots (s : System Handler) : Prop where
  idle : s.pair.Idle
  interrupts : s.interrupts = false
  phase : s.phase = .programming initPic
  interruptHandlers : s.interruptHandlers = fun _ => none

/-! ## What the controllers are for -/

/-- Where the kernel is, as far as the desk is concerned. -/
inductive Stage where
  | starting
  | running
  | handling (intNo : UInt32)
  | hung (intNo : UInt32)
  deriving DecidableEq

/-- The requests that wait, and who answers them. -/
structure Desk (Handler : Type) where
  waiting : Set Input
  interrupts : Bool
  stage : Stage
  interruptHandlers : UInt32 → Option Handler

/-- The vector of an input. -/
def vectorOf (input : Input) : UInt8 := input.vector pic1Offset pic2Offset

/-- One step of the desk. Requests are lost only while it starts. An interrupt is for a
request that waits and that no other goes before; input 7 of a controller can be for one
that was withdrawn just then. -/
inductive Desk.Step : Desk Handler → Event Handler → Desk Handler → Prop where
  | raise {d} {input : Input} : Step d (.raise input) { d with waiting := insert input d.waiting }
  | withdraw {d} {input : Input} :
      Step d (.withdraw input) { d with waiting := d.waiting \ {input} }
  | program {d} {out : Out} {kept : Set Input} (stage : d.stage = .starting)
      (fewer : kept ⊆ d.waiting) : Step d (.program out) { d with waiting := kept }
  | programmed {d} (stage : d.stage = .starting) : Step d .programmed { d with stage := .running }
  | interrupt {d} {input : Input} (stage : d.stage = .running) (enabled : d.interrupts = true)
      (real : input ∈ d.waiting ∨ input = .master 7 ∨ input = .slave 7)
      (first : ∀ other ∈ d.waiting, input.priority ≤ other.priority) :
      Step d (.interrupt (vectorOf input))
        { d with
          waiting := d.waiting \ {input}
          interrupts := false
          stage := .handling (vectorOf input).toUInt32 }
  | call {d} {intNo : UInt32} {handler : Handler} (stage : d.stage = .handling intNo)
      (registered : d.interruptHandlers intNo = some handler) :
      Step d (.call intNo handler) { d with stage := .running }
  | hang {d} {intNo : UInt32} (stage : d.stage = .handling intNo)
      (missing : d.interruptHandlers intNo = none) :
      Step d (.hang intNo) { d with stage := .hung intNo }
  | setInterrupts {d} {enabled : Bool} (stage : d.stage = .running) :
      Step d (.setInterrupts enabled) { d with interrupts := enabled }
  | register {d} {n : UInt8} {handler : Handler} (stage : d.stage = .running) :
      Step d (.register n handler)
        { d with interruptHandlers := registerInterruptHandler n handler d.interruptHandlers }

def Phase.stage : Phase → Stage
  | .programming _ => .starting
  | .running => .running
  | .handling intNo _ => .handling intNo
  | .hung intNo => .hung intNo

/-- The devices whose requests are latched. -/
def waiting (pair : Cascade) : Set Input :=
  {input | input ≠ .wired ∧ pair.requested input = true}

/-- The desk that a system is. -/
def System.desk (s : System Handler) : Desk Handler where
  waiting := waiting s.pair
  interrupts := s.interrupts
  stage := s.phase.stage
  interruptHandlers := s.interruptHandlers

/-- The desk does not see ends of interrupts, nor what the controllers tell each other. -/
def Event.visible : Event Handler → Bool
  | .fall => false
  | .eoi _ => false
  | _ => true

/-! ## Bytes at the ports -/

section Send

variable {pair pair' : Cascade} {input other : Input} {out : Out}

/-- What the two controllers are programmed with. -/
def setups (pair : Cascade) : Setup × Setup := (pair.master.setup, pair.slave.setup)

/-- What a byte at a command port does to a setup. -/
def commandSetup (value : UInt8) (setup : Setup) : Setup :=
  if value &&& 0x10 ≠ 0 then setup.restart value else setup

/-- What a byte at a port does to the setups. -/
def sendSetups (out : Out) (both : Setup × Setup) : Setup × Setup :=
  if out.port = pic1Command then (commandSetup out.data both.1, both.2)
  else if out.port = pic1Data then (both.1.data out.data, both.2)
  else if out.port = pic2Command then (both.1, commandSetup out.data both.2)
  else if out.port = pic2Data then (both.1, both.2.data out.data)
  else both

/-- What `init_pic` leaves. -/
def opened : Setup × Setup :=
  (⟨.mask, pic1Offset, 4, false, 0⟩, ⟨.mask, pic2Offset, 2, false, 0⟩)

theorem opened_open (isOpened : setups pair = opened) : pair.Open pic1Offset pic2Offset := by
  obtain ⟨master, slave⟩ := Prod.mk.inj isOpened
  constructor
  · constructor <;> rw [master]
  · constructor <;> rw [slave]
  · rw [master]
  · rw [slave]

theorem setup_command (value : UInt8) (controller : Controller) :
    (Controller.command value controller).setup = commandSetup value controller.setup := by
  rw [Controller.command, commandSetup]
  by_cases restarts : value &&& 0x10 ≠ 0
  · rw [if_pos restarts, if_pos restarts]
  · rw [if_neg restarts, if_neg restarts]
    split
    · exact Controller.endOfInterrupt_setup
    · rfl

theorem setups_send : setups (send out pair) = sendSetups out (setups pair) := by
  rw [send, sendSetups]
  split_ifs
  · simp [setups, setup_command]
  · simp [setups, Controller.data]
  · simp [setups, setup_command]
  · simp [setups, Controller.data]
  · rfl

/-- However the controllers were set up, `init_pic` leaves them open. -/
theorem initPic_setups (both : Setup × Setup) :
    initPic.foldl (fun both out => sendSetups out both) both = opened := rfl

theorem setups_raise : setups (pair.raise input) = setups pair := by
  cases input <;> simp [setups, Cascade.raise]

theorem setups_withdraw : setups (pair.withdraw input) = setups pair := by
  cases input <;> simp [setups, Cascade.withdraw]

/-- The same lines are in service. -/
structure SameServices (pair pair' : Cascade) : Prop where
  master : pair'.master.serviced = pair.master.serviced
  slave : pair'.slave.serviced = pair.slave.serviced

theorem SameServices.idle (same : SameServices pair pair') (idle : pair.Idle) : pair'.Idle where
  master := fun line => (congrFun same.master line).trans (idle.master line)
  slave := fun line => (congrFun same.slave line).trans (idle.slave line)

theorem sameServices_raise : SameServices pair (pair.raise input) := by
  cases input <;> constructor <;> simp [Cascade.raise]

theorem sameServices_withdraw : SameServices pair (pair.withdraw input) := by
  cases input <;> constructor <;> simp [Cascade.withdraw]

theorem latched_raise (device : input ≠ .wired) (latched : pair.Latched) :
    (pair.raise input).Latched := by
  cases input with
  | master line =>
      refine latched.onMaster fun asked => ?_
      have apart : Cascade.wire ≠ line := fun same => device (by rw [← same]; rfl)
      exact (Function.update_of_ne apart _ _).trans asked
  | slave line => exact latched.onSlave

theorem latched_withdraw (device : input ≠ .wired) (latched : pair.Latched) :
    (pair.withdraw input).Latched := by
  cases input with
  | master line =>
      refine latched.onMaster fun asked => ?_
      have apart : Cascade.wire ≠ line := fun same => device (by rw [← same]; rfl)
      exact (Function.update_of_ne apart _ _).trans asked
  | slave line => exact latched.onSlave

theorem requested_fall (notWired : other ≠ .wired) :
    (pair.onMaster (·.withdraw Cascade.wire)).requested other = pair.requested other := by
  cases other with
  | master line =>
      have apart : line ≠ Cascade.wire := fun same => notWired (by rw [same]; rfl)
      exact Function.update_of_ne apart _ _
  | slave line => rfl

theorem command_requested {value : UInt8} {controller : Controller} {line : Fin 8}
    (asked : (Controller.command value controller).requested line = true) :
    controller.requested line = true := by
  rw [Controller.command] at asked
  split_ifs at asked
  · rwa [Controller.endOfInterrupt_requested] at asked
  · exact asked

/-- A byte at a port makes no request. -/
theorem requested_send (notWired : other ≠ .wired)
    (asked : (send out pair).requested other = true) : pair.requested other = true := by
  rw [send] at asked
  cases other with
  | master line =>
      have apart : line ≠ Cascade.wire := fun same => notWired (by rw [same]; rfl)
      split_ifs at asked
      · exact command_requested asked
      · exact asked
      · exact (Cascade.onSlave_requested apart).symm.trans asked
      · exact (Cascade.onSlave_requested apart).symm.trans asked
      · exact asked
  | slave line =>
      split_ifs at asked
      · exact asked
      · exact asked
      · exact command_requested asked
      · exact asked
      · exact asked

end Send

/-! ## What holds throughout -/

section Invariant

variable {pair pair' : Cascade} {input : Input} {out : Out} {rest : List Out}
  {image : Image} {s after : System Handler} {event : Event Handler}

/-- The ends of interrupts. -/
def eoi1 : Out := ⟨pic1Command, picEoi⟩
def eoi2 : Out := ⟨pic2Command, picEoi⟩

/-- The writes that are left retire whatever is in service. -/
inductive Retires (pair : Cascade) : List Out → Prop where
  | both (master : pair.master.Single) (slave : pair.slave.Single) : Retires pair [eoi2, eoi1]
  | master (master : pair.master.Single) (slave : pair.slave.Idle) : Retires pair [eoi1]
  | done (idle : pair.Idle) : Retires pair []

theorem send_eoi1 : send eoi1 pair = pair.onMaster (·.endOfInterrupt) := rfl

theorem send_eoi2 : send eoi2 pair = pair.onSlave (·.endOfInterrupt) := rfl

theorem SameServices.retires (same : SameServices pair pair') (retires : Retires pair rest) :
    Retires pair' rest := by
  obtain ⟨master, slave⟩ := same
  cases retires with
  | both single single' =>
      refine .both ?_ ?_
      · rwa [Controller.Single, master]
      · rwa [Controller.Single, slave]
  | master single idle =>
      refine .master ?_ ?_
      · rwa [Controller.Single, master]
      · rwa [Controller.Idle, slave]
  | done idle => exact .done (SameServices.idle ⟨master, slave⟩ idle)

/-- Each write retires its share. -/
theorem Retires.send (retires : Retires pair (out :: rest)) : Retires (send out pair) rest := by
  cases retires with
  | both single single' =>
      rw [send_eoi2]
      refine .master ?_ single'.endOfInterrupt
      rwa [Controller.Single, Cascade.onSlave_serviced]
  | master single idle =>
      rw [send_eoi1]
      exact .done ⟨single.endOfInterrupt, idle⟩

/-- An end of interrupt drops no request. -/
theorem Retires.latched (retires : Retires pair (out :: rest)) (latched : pair.Latched) :
    (Pic.send out pair).Latched := by
  cases retires with
  | both _ _ => exact latched.onSlave
  | master _ _ =>
      rw [send_eoi1]
      exact latched.onMaster fun asked => by rwa [Controller.endOfInterrupt_requested]

theorem Retires.requested (retires : Retires pair (out :: rest)) (notWired : input ≠ .wired) :
    (Pic.send out pair).requested input = pair.requested input := by
  cases retires with
  | both _ _ =>
      rw [send_eoi2]
      cases input with
      | master line =>
          have apart : line ≠ Cascade.wire := fun same => notWired (by rw [same]; rfl)
          exact Cascade.onSlave_requested apart
      | slave line =>
          exact congrFun Controller.endOfInterrupt_requested line
  | master _ _ =>
      rw [send_eoi1]
      cases input with
      | master line => exact congrFun Controller.endOfInterrupt_requested line
      | slave line => rfl

/-- How far `init_pic` is: once both controllers are being initialized, the master is
informed of all the slave asks for. -/
inductive Initializes (pair : Cascade) (rest : List Out) : Prop where
  | start (all : rest = initPic)
  | master (next : rest = initPic.tail)
  | data (latched : pair.Latched)
      (ports : ∀ out ∈ rest, out.port = pic1Data ∨ out.port = pic2Data)

theorem Initializes.congr (initializes : Initializes pair rest)
    (keeps : pair.Latched → pair'.Latched) : Initializes pair' rest := by
  cases initializes with
  | start all => exact .start all
  | master next => exact .master next
  | data latched ports => exact .data (keeps latched) ports

/-- A controller that is being initialized does not interrupt. -/
theorem pending_command_icw1 (controller : Controller) :
    (Controller.command (icw1Init ||| icw1Icw4) controller).pending = none := rfl

theorem Initializes.send (initializes : Initializes pair (out :: rest)) :
    Initializes (send out pair) rest := by
  cases initializes with
  | start all =>
      obtain ⟨rfl, rfl⟩ := List.cons.inj all
      exact .master rfl
  | master next =>
      obtain ⟨rfl, rfl⟩ := List.cons.inj next
      refine .data (fun interrupts => ?_) (by decide)
      have silent : (Pic.send ⟨pic2Command, icw1Init ||| icw1Icw4⟩ pair).slave.pending = none :=
        pending_command_icw1 pair.slave
      rw [silent] at interrupts
      cases interrupts
  | data latched ports =>
      refine .data ?_ fun other member => ports other (List.mem_cons_of_mem _ member)
      obtain ⟨port, data⟩ := out
      rcases ports _ List.mem_cons_self with rfl | rfl
      · exact latched.onMaster fun asked => asked
      · exact latched.onSlave

/-- A byte of `init_pic` leaves the lines in service alone. -/
theorem Initializes.idle (initializes : Initializes pair (out :: rest)) (idle : pair.Idle) :
    (Pic.send out pair).Idle := by
  cases initializes with
  | start all =>
      obtain ⟨rfl, rfl⟩ := List.cons.inj all
      exact ⟨idle.master, idle.slave⟩
  | master next =>
      obtain ⟨rfl, rfl⟩ := List.cons.inj next
      refine ⟨?_, idle.slave⟩
      exact fun line => (congrFun Cascade.onSlave_serviced line).trans (idle.master line)
  | data latched ports =>
      obtain ⟨port, data⟩ := out
      rcases ports _ List.mem_cons_self with rfl | rfl
      · exact ⟨idle.master, idle.slave⟩
      · refine ⟨?_, idle.slave⟩
        exact fun line => (congrFun Cascade.onSlave_serviced line).trans (idle.master line)

/-- What holds in each phase. Interrupts are on only where no line is in service. -/
def Holds (pair : Cascade) (interrupts : Bool) : Phase → Prop
  | .programming rest => interrupts = false ∧ pair.Idle ∧ Initializes pair rest ∧
      rest.foldl (fun both out => sendSetups out both) (setups pair) = opened
  | .running => pair.Idle ∧ pair.Latched ∧ setups pair = opened
  | .handling _ rest => interrupts = false ∧ Retires pair rest ∧ pair.Latched ∧
      setups pair = opened
  | .hung _ => interrupts = false ∧ pair.Idle

def Invariant (s : System Handler) : Prop := Holds s.pair s.interrupts s.phase

theorem Boots.invariant (boots : Boots s) : Invariant s := by
  rw [Invariant, boots.phase]
  exact ⟨boots.interrupts, boots.idle, .start rfl, initPic_setups _⟩

/-- What the devices do disturbs nothing. -/
theorem Holds.congr {interrupts : Bool} {phase : Phase} (holds : Holds pair interrupts phase)
    (services : SameServices pair pair') (sameSetups : setups pair' = setups pair)
    (keeps : pair.Latched → pair'.Latched) : Holds pair' interrupts phase := by
  cases phase with
  | programming rest =>
      obtain ⟨off, idle, initializes, opens⟩ := holds
      refine ⟨off, services.idle idle, initializes.congr keeps, ?_⟩
      rwa [sameSetups]
  | running =>
      obtain ⟨idle, latched, isOpened⟩ := holds
      exact ⟨services.idle idle, keeps latched, sameSetups.trans isOpened⟩
  | handling intNo rest =>
      obtain ⟨off, retires, latched, isOpened⟩ := holds
      exact ⟨off, services.retires retires, keeps latched, sameSetups.trans isOpened⟩
  | hung intNo => exact ⟨holds.1, services.idle holds.2⟩

/-- The handler of an interrupt receives its number. -/
theorem received_intNo {vector : UInt8} {c : Cpu} {context : Context} {line : Fin 16}
    (isLine : vector = Stub.vector (.irq line))
    (saved : received image vector 0 c = some context) : context.intNo = vector.toUInt32 := by
  have hardware : ∀ line : Fin 16, Stub.vector (.irq line) ∉ doubled := by decide
  subst isLine
  rw [received_vector, Option.some.injEq] at saved
  rw [← saved]
  exact (single_describes image 0 c (hardware line)).intNo

/-- The inputs have the vectors of the sixteen stubs of `interrupts.asm`. -/
theorem exists_line (input : Input) : ∃ line : Fin 16, vectorOf input = Stub.vector (.irq line) := by
  cases input with
  | master line =>
      refine ⟨⟨line, by omega⟩, ?_⟩
      revert line
      decide
  | slave line =>
      refine ⟨⟨8 + line, by omega⟩, ?_⟩
      revert line
      decide

/-- What `irq_handler` sends to the controllers for an interrupt. -/
theorem picSendEoi_vectorOf (input : Input) :
    picSendEoi ((vectorOf input).toUInt32 - 32).toUInt8 =
      match input with
      | .master _ => [eoi1]
      | .slave _ => [eoi2, eoi1] := by
  cases input with
  | master line =>
      revert line
      decide
  | slave line =>
      revert line
      decide

/-- Where the kernel runs, an acknowledgement takes the request of the highest priority, and
`irq_handler` goes on to retire it. -/
theorem interrupt_takes {vector : UInt8} {c : Cpu} {context : Context}
    (holds : Holds pair s.interrupts .running)
    (acknowledged : pair.acknowledge = some (vector, pair'))
    (saved : received image vector 0 c = some context) :
    ∃ input, vector = vectorOf input ∧ context.intNo = (vectorOf input).toUInt32 ∧
      pair.Takes input pair' ∧
      Holds pair' false (.handling context.intNo (picSendEoi (context.intNo - 32).toUInt8)) := by
  obtain ⟨idle, latched, isOpened⟩ := holds
  obtain ⟨input, taken, same, takes⟩ := (opened_open isOpened).acknowledge_takes idle latched
  rw [acknowledged, Option.some.injEq, Prod.mk.injEq] at same
  obtain ⟨rfl, rfl⟩ := same
  obtain ⟨line, isLine⟩ := exists_line input
  have intNo := received_intNo isLine saved
  refine ⟨input, rfl, intNo, takes, rfl, ?_, takes.latched, ?_⟩
  · rw [intNo]
    rw [picSendEoi_vectorOf]
    cases input with
    | master line => exact .master takes.masterSingle (takes.slaveIdle line rfl)
    | slave line => exact .both takes.masterSingle takes.slaveSingle
  · rw [setups, takes.masterSetup, takes.slaveSetup]
    exact isOpened

/-- Every step keeps what holds. -/
theorem Step.invariant (step : Step image s event after) (holds : Invariant s) :
    Invariant after := by
  cases step with
  | raise device =>
      exact Holds.congr holds sameServices_raise setups_raise (latched_raise device)
  | withdraw device =>
      exact Holds.congr holds sameServices_withdraw setups_withdraw (latched_withdraw device)
  | fall silent =>
      refine Holds.congr holds ⟨rfl, rfl⟩ rfl fun _ interrupts => ?_
      rw [Cascade.onMaster_slave, silent] at interrupts
      cases interrupts
  | program phase =>
      rw [Invariant, phase] at holds
      obtain ⟨off, idle, initializes, opens⟩ := holds
      refine ⟨off, initializes.idle idle, initializes.send, ?_⟩
      rwa [setups_send]
  | programmed phase =>
      rw [Invariant, phase] at holds
      obtain ⟨off, idle, initializes, opens⟩ := holds
      cases initializes with
      | start all => cases all
      | master next => cases next
      | data latched _ => exact ⟨idle, latched, opens⟩
  | interrupt phase _ acknowledged saved =>
      rw [Invariant, phase] at holds
      obtain ⟨input, -, -, -, handles⟩ := interrupt_takes holds acknowledged saved
      exact handles
  | eoi phase =>
      rw [Invariant, phase] at holds
      obtain ⟨off, retires, latched, isOpened⟩ := holds
      refine ⟨off, retires.send, retires.latched latched, ?_⟩
      rw [setups_send, isOpened]
      cases retires <;> rfl
  | call phase _ =>
      rw [Invariant, phase] at holds
      obtain ⟨off, retires, latched, isOpened⟩ := holds
      cases retires with
      | done idle => exact ⟨idle, latched, isOpened⟩
  | hang phase _ =>
      rw [Invariant, phase] at holds
      obtain ⟨off, retires, latched, isOpened⟩ := holds
      cases retires with
      | done idle => exact ⟨off, idle⟩
  | setInterrupts phase =>
      rw [Invariant, phase] at holds
      change Holds s.pair _ s.phase
      rw [phase]
      exact holds
  | register phase => exact holds

/-- Two ends of the controllers have the same requests. -/
theorem waiting_congr (same : ∀ input, input ≠ .wired →
    pair'.requested input = pair.requested input) : waiting pair' = waiting pair := by
  ext input
  refine and_congr_right fun notWired => ?_
  rw [same input notWired]

theorem waiting_raise (device : input ≠ .wired) :
    waiting (pair.raise input) = insert input (waiting pair) := by
  ext other
  by_cases notWired : other = .wired
  · have apart : other ≠ input := fun same => device (same.symm.trans notWired)
    simp [waiting, notWired, device.symm]
  · simp only [waiting, Set.mem_ofPred_eq, Set.mem_insert_iff,
      Cascade.requested_raise device notWired, Bool.or_eq_true, decide_eq_true_eq]
    tauto

/-- The same with a request less. -/
theorem waiting_remove (less : ∀ other, other ≠ .wired →
    pair'.requested other = (pair.requested other && decide (other ≠ input))) :
    waiting pair' = waiting pair \ {input} := by
  ext other
  by_cases notWired : other = .wired
  · simp [waiting, notWired]
  · simp only [waiting, Set.mem_ofPred_eq, Set.mem_sdiff, Set.mem_singleton_iff,
      less other notWired, Bool.and_eq_true, decide_eq_true_eq]
    tauto

/-- A step is one of the desk, or the desk does not see it. -/
theorem Step.desk (step : Step image s event after) (holds : Invariant s) :
    if event.visible then Desk.Step s.desk event after.desk else after.desk = s.desk := by
  cases step with
  | @raise input device =>
      change Desk.Step s.desk _ { s.desk with waiting := waiting (s.pair.raise input) }
      rw [waiting_raise device]
      exact .raise
  | @withdraw input device =>
      change Desk.Step s.desk _ { s.desk with waiting := waiting (s.pair.withdraw input) }
      rw [waiting_remove fun _ notWired => Cascade.requested_withdraw notWired]
      exact .withdraw
  | fall silent =>
      change { s.desk with waiting := waiting (s.pair.onMaster (·.withdraw Cascade.wire)) } = s.desk
      rw [waiting_congr fun _ notWired => requested_fall notWired]
      rfl
  | @program out rest phase =>
      have fewer : waiting (send out s.pair) ⊆ waiting s.pair :=
        fun other asked => ⟨asked.1, requested_send asked.1 asked.2⟩
      have stage : s.desk.stage = .starting := congrArg Phase.stage phase
      change Desk.Step s.desk _ ⟨waiting _, _, .starting, _⟩
      rw [← stage]
      exact .program stage fewer
  | programmed phase => exact .programmed (congrArg Phase.stage phase)
  | interrupt phase enabled acknowledged saved =>
      rw [Invariant, phase] at holds
      obtain ⟨input, rfl, intNo, takes, -⟩ := interrupt_takes holds acknowledged saved
      have real : input ∈ s.desk.waiting ∨ input = .master 7 ∨ input = .slave 7 :=
        takes.real.imp_left fun asked => ⟨takes.device, asked⟩
      have taken := Desk.Step.interrupt (congrArg Phase.stage phase) enabled real
        fun other asked => takes.first other asked.1 asked.2
      rw [intNo]
      change Desk.Step s.desk _ ⟨waiting _, _, _, _⟩
      rw [waiting_remove takes.requested]
      exact taken
  | eoi phase =>
      rw [Invariant, phase] at holds
      have same := waiting_congr fun input notWired =>
        (holds.2.1.requested notWired : _ = s.pair.requested input)
      change ⟨waiting _, _, _, _⟩ = s.desk
      rw [same, System.desk, phase]
      rfl
  | call phase registered => exact .call (congrArg Phase.stage phase) registered
  | hang phase missing => exact .hang (congrArg Phase.stage phase) missing
  | setInterrupts phase => exact .setInterrupts (congrArg Phase.stage phase)
  | register phase => exact .register (congrArg Phase.stage phase)

end Invariant

/-! ## Runs -/

section Runs

variable {image : Image} {start s : System Handler} {event : Event Handler}
  {events : List (Event Handler)} {d after : Desk Handler}

theorem Boots.holds (boots : Boots start) (run : Reaches (Step image) start events s) :
    Invariant s :=
  run.invariant boots.invariant fun holds step => step.invariant holds

/-- A run is one of the desk, with the steps left out that the desk does not see. -/
theorem Invariant.desk_run (holds : Invariant start) (run : Reaches (Step image) start events s) :
    Reaches Desk.Step start.desk (events.filter Event.visible) s.desk := by
  induction run with
  | refl => exact .refl
  | @snoc events s after event earlier step ih =>
      have here := earlier.invariant holds fun holds step => step.invariant holds
      have taken := step.desk here
      rw [List.filter_append]
      cases seen : event.visible with
      | true =>
          rw [seen, if_pos rfl] at taken
          rw [List.filter_cons_of_pos seen, List.filter_nil]
          exact ih.snoc taken
      | false =>
          rw [seen, if_neg (by decide)] at taken
          rw [List.filter_cons_of_neg (by simp [seen]), List.filter_nil, List.append_nil, taken]
          exact ih

/-- Where interrupts are on the processor can always take one, whatever it is doing. -/
theorem interrupt_taken (boots : Boots start) (run : Reaches (Step image) start events s)
    (running : s.phase = .running) (enabled : s.interrupts = true) :
    ∃ input after, Step image s (.interrupt (vectorOf input)) after := by
  have holds := boots.holds run
  rw [Invariant, running] at holds
  obtain ⟨idle, latched, isOpened⟩ := holds
  obtain ⟨input, pair, taken, -⟩ := (opened_open isOpened).acknowledge_takes idle latched
  obtain ⟨line, isLine⟩ := exists_line input
  have saved : received image (Stub.irq line).vector 0 interruptedCpu = some _ := received_vector
  rw [← isLine] at saved
  exact ⟨input, _, .interrupt running enabled taken saved⟩

/-! ## No request is lost, none is answered twice -/

/-- Whether a request of an input waits, after another event. -/
def Waits (input : Input) (waits : Prop) : Event Handler → Prop
  | .raise other => waits ∨ input = other
  | .withdraw other => waits ∧ input ≠ other
  | .interrupt vector => waits ∧ vector ≠ vectorOf input
  | _ => waits

theorem vectorOf_injective : Function.Injective vectorOf := by
  intro left right
  cases left <;> cases right <;> rename_i left right <;> revert left right <;> decide

theorem Desk.Step.waits (step : Desk.Step d event after) (started : d.stage ≠ .starting)
    (input : Input) :
    (input ∈ after.waiting ↔ Waits input (input ∈ d.waiting) event) ∧
      after.stage ≠ .starting := by
  cases step with
  | raise => exact ⟨by simp [Waits, or_comm], started⟩
  | withdraw => exact ⟨by simp [Waits], started⟩
  | program stage _ => exact absurd stage started
  | programmed stage => exact absurd stage started
  | interrupt _ _ _ _ =>
      refine ⟨?_, by simp⟩
      simp [Waits, vectorOf_injective.eq_iff, eq_comm]
  | call _ _ => exact ⟨Iff.rfl, by simp⟩
  | hang _ _ => exact ⟨Iff.rfl, by simp⟩
  | setInterrupts _ => exact ⟨Iff.rfl, started⟩
  | register _ => exact ⟨Iff.rfl, started⟩

theorem Desk.Step.of_interrupt {vector : UInt8} (step : Desk.Step d (.interrupt vector) after) :
    ∃ input, vector = vectorOf input ∧
      (input ∈ d.waiting ∨ input = .master 7 ∨ input = .slave 7) := by
  cases step with
  | interrupt _ _ real _ => exact ⟨_, rfl, real⟩

theorem Desk.waits (run : Reaches Desk.Step d events after) (started : d.stage ≠ .starting)
    (input : Input) :
    (input ∈ after.waiting ↔ events.foldl (Waits input) (input ∈ d.waiting)) ∧
      after.stage ≠ .starting := by
  induction run with
  | refl => exact ⟨Iff.rfl, started⟩
  | @snoc events middle after event run step ih =>
      obtain ⟨waits, still⟩ := step.waits ih.2 input
      refine ⟨?_, still⟩
      rw [List.foldl_append, waits, propext ih.1]
      rfl

/-- What the desk does not see changes no request. -/
theorem foldl_visible (input : Input) (waits : Prop) :
    (events.filter Event.visible).foldl (Waits input) waits =
      events.foldl (Waits input) waits := by
  induction events generalizing waits with
  | nil => rfl
  | cons event events ih =>
      cases seen : event.visible with
      | true =>
          rw [List.filter_cons_of_pos seen, List.foldl_cons, List.foldl_cons, ih]
      | false =>
          rw [List.filter_cons_of_neg (by simp [seen]), List.foldl_cons, ih]
          cases event <;> first | rfl | cases seen

/-- A request waits exactly if it was made and since then neither answered nor withdrawn,
and no interrupt is for an input without such a request, but for one just withdrawn. -/
theorem requests_answered {earlier : List (Event Handler)} {after : System Handler} {input : Input}
    (boots : Boots start) (first : Reaches (Step image) start earlier s)
    (started : s.phase.stage ≠ .starting) (run : Reaches (Step image) s events after)
    (device : input ≠ .wired) :
    (after.pair.requested input = true ↔
        events.foldl (Waits input) (s.pair.requested input = true)) ∧
      ∀ before rest, events = before ++ .interrupt (vectorOf input) :: rest →
        input ≠ .master 7 → input ≠ .slave 7 →
          before.foldl (Waits input) (s.pair.requested input = true) := by
  have holds := boots.holds first
  have requested : ∀ s : System Handler,
      (input ∈ s.desk.waiting) = (s.pair.requested input = true) :=
    fun s => propext (and_iff_right device)
  have waits : ∀ {events after}, Reaches (Step image) s events after →
      (after.pair.requested input = true ↔
        events.foldl (Waits input) (s.pair.requested input = true)) := by
    intro events after run
    have desk := (Desk.waits (holds.desk_run run) started input).1
    rwa [foldl_visible, requested, requested] at desk
  refine ⟨waits run, fun before rest split notLast notLast' => ?_⟩
  subst split
  obtain ⟨middle, next, toMiddle, taken, -⟩ := run.split
  have here := toMiddle.invariant holds fun holds step => step.invariant holds
  rw [← waits toMiddle]
  have step : Desk.Step middle.desk (.interrupt (vectorOf input)) next.desk := taken.desk here
  obtain ⟨other, same, asked | last | last⟩ := step.of_interrupt
  · rw [vectorOf_injective same]
    exact asked.2
  · exact absurd ((vectorOf_injective same).trans last) notLast
  · exact absurd ((vectorOf_injective same).trans last) notLast'

/-! ## Every interrupt is handled, in order -/

/-- The interrupts that are taken, by their `int_no`. -/
def Event.taken : Event Handler → Option UInt32
  | .interrupt vector => some vector.toUInt32
  | _ => none

/-- The interrupts whose handler is called. -/
def Event.called : Event Handler → Option UInt32
  | .call intNo _ => some intNo
  | _ => none

/-- The interrupt that `irq_handler` is at or hangs in. -/
def Stage.current : Stage → List UInt32
  | .handling intNo => [intNo]
  | .hung intNo => [intNo]
  | _ => []

/-- From here on no handler is registered. -/
def Settled (events : List (Event Handler)) : Prop := ∀ n handler, .register n handler ∉ events

/-- Every interrupt but the one that `irq_handler` is at has its handler called, and that
hangs for want of one. -/
structure Handled (interruptHandlers : UInt32 → Option Handler) (events : List (Event Handler))
    (stage : Stage) : Prop where
  ordered : events.filterMap Event.taken = events.filterMap Event.called ++ stage.current
  served : ∀ intNo ∈ events.filterMap Event.called, interruptHandlers intNo ≠ none
  stuck : ∀ intNo, stage = .hung intNo → interruptHandlers intNo = none

/-- An event that is no interrupt and no call. -/
theorem Handled.quiet {interruptHandlers : UInt32 → Option Handler} {stage stage' : Stage}
    (handled : Handled interruptHandlers events stage) (taken : event.taken = none)
    (called : event.called = none) (same : stage'.current = stage.current)
    (stuck : ∀ intNo, stage' = .hung intNo → interruptHandlers intNo = none) :
    Handled interruptHandlers (events ++ [event]) stage' := by
  have noneTaken : (events ++ [event]).filterMap Event.taken = events.filterMap Event.taken := by
    rw [List.filterMap_append, List.filterMap_cons_none taken, List.filterMap_nil, List.append_nil]
  have noneCalled : (events ++ [event]).filterMap Event.called = events.filterMap Event.called := by
    rw [List.filterMap_append, List.filterMap_cons_none called, List.filterMap_nil,
      List.append_nil]
  constructor
  · rw [noneTaken, noneCalled, same]
    exact handled.ordered
  · rw [noneCalled]
    exact handled.served
  · exact stuck

theorem Desk.Step.handled (step : Desk.Step d event after)
    (unregistered : ∀ n handler, event ≠ .register n handler)
    (handled : Handled d.interruptHandlers events d.stage) :
    Handled d.interruptHandlers (events ++ [event]) after.stage := by
  cases step with
  | raise => exact handled.quiet rfl rfl rfl handled.stuck
  | withdraw => exact handled.quiet rfl rfl rfl handled.stuck
  | program stage _ => exact handled.quiet rfl rfl rfl handled.stuck
  | programmed stage =>
      refine handled.quiet rfl rfl ?_ fun _ hung => by cases hung
      rw [stage]
      rfl
  | @interrupt input stage _ _ _ =>
      have ordered := handled.ordered
      rw [stage] at ordered
      change _ = _ ++ [] at ordered
      rw [List.append_nil] at ordered
      constructor
      · rw [List.filterMap_append, List.filterMap_append, ordered, List.append_assoc]
        rfl
      · rw [List.filterMap_append, List.filterMap_cons_none rfl, List.filterMap_nil,
          List.append_nil]
        exact handled.served
      · exact fun _ hung => by cases hung
  | @call intNo handler stage registered =>
      have ordered := handled.ordered
      rw [stage] at ordered
      constructor
      · rw [List.filterMap_append, List.filterMap_append, ordered]
        rfl
      · intro number member
        rw [List.filterMap_append, List.mem_append] at member
        rcases member with earlier | last
        · exact handled.served number earlier
        · cases List.mem_singleton.mp last
          rw [registered]
          simp
      · exact fun _ hung => by cases hung
  | hang stage missing =>
      refine handled.quiet rfl rfl ?_ fun number hung => ?_
      · rw [stage]
        rfl
      · cases hung
        exact missing
  | setInterrupts stage => exact handled.quiet rfl rfl rfl handled.stuck
  | register stage => exact absurd rfl (unregistered _ _)

theorem Desk.Step.interruptHandlers (step : Desk.Step d event after)
    (unregistered : ∀ n handler, event ≠ .register n handler) :
    after.interruptHandlers = d.interruptHandlers := by
  cases step with
  | register stage => exact absurd rfl (unregistered _ _)
  | _ => rfl

theorem Desk.handled (run : Reaches Desk.Step d events after) (free : d.stage.current = [])
    (settled : Settled events) :
    after.interruptHandlers = d.interruptHandlers ∧
      Handled d.interruptHandlers events after.stage := by
  induction run with
  | refl =>
      refine ⟨rfl, free.symm, by simp, fun intNo hung => ?_⟩
      rw [hung] at free
      cases free
  | @snoc events middle after event run step ih =>
      obtain ⟨same, handled⟩ :=
        ih fun n handler member => settled n handler (List.mem_append_left _ member)
      have unregistered : ∀ n handler, event ≠ .register n handler := by
        rintro n handler rfl
        exact settled n handler (List.mem_append_right _ List.mem_cons_self)
      rw [← same] at handled
      have next := step.handled unregistered handled
      rw [same] at next
      exact ⟨(step.interruptHandlers unregistered).trans same, next⟩

theorem filterMap_visible {β : Type} {view : Event Handler → Option β}
    (sees : ∀ event, event.visible = false → view event = none) :
    (events.filter Event.visible).filterMap view = events.filterMap view := by
  rw [List.filterMap_filter]
  congr 1
  funext event
  cases seen : event.visible with
  | true => rfl
  | false => exact (sees event seen).symm

/-- Once no handler is registered any more, every interrupt that is taken has its handler
called, once and in turn, up to the first one without a handler, in which the kernel hangs. -/
theorem interrupts_handled {earlier : List (Event Handler)} {after : System Handler}
    (boots : Boots start) (first : Reaches (Step image) start earlier s)
    (running : s.phase = .running) (run : Reaches (Step image) s events after)
    (settled : Settled events) :
    Handled s.interruptHandlers events after.phase.stage := by
  have free : s.desk.stage.current = [] := by
    change s.phase.stage.current = []
    rw [running]
    rfl
  obtain ⟨-, handled⟩ := Desk.handled ((boots.holds first).desk_run run) free
    fun n handler member => settled n handler (List.mem_filter.mp member).1
  have taken : (events.filter Event.visible).filterMap Event.taken =
      events.filterMap Event.taken :=
    filterMap_visible fun event seen => by cases event <;> first | rfl | cases seen
  have called : (events.filter Event.visible).filterMap Event.called =
      events.filterMap Event.called :=
    filterMap_visible fun event seen => by cases event <;> first | rfl | cases seen
  constructor
  · rw [← taken, ← called]
    exact handled.ordered
  · rw [← called]
    exact handled.served
  · exact handled.stuck

/-- From the first write of `init_pic` on, the kernel, the controllers and the devices do
together what the desk does, in any order of their steps, and where interrupts are on the
processor can take one, whatever it is doing. -/
theorem refines_desk (boots : Boots start) (run : Reaches (Step image) start events s) :
    Reaches Desk.Step start.desk (events.filter Event.visible) s.desk ∧
      (s.phase = .running → s.interrupts = true →
        ∃ input after, Step image s (.interrupt (vectorOf input)) after) :=
  ⟨boots.invariant.desk_run run, interrupt_taken boots run⟩

end Runs

/-! ## A boot -/

/-- The controllers as firmware may leave them. -/
def firmware : Controller where
  setup := ⟨.mask, 0x08, 0, false, 0xB8⟩
  requested := fun line => decide (line.val = 0)
  serviced := fun _ => false

/-- The kernel about to call `init_pic`. -/
def System.sample : System Unit where
  pair := ⟨firmware, firmware⟩
  interrupts := false
  phase := .programming initPic
  interruptHandlers := fun _ => none

theorem System.sample_boots : Boots System.sample :=
  ⟨⟨fun _ => rfl, fun _ => rfl⟩, rfl, rfl, rfl⟩

/-- `init_pic` can always be run to its end. -/
theorem programs (image : Image) {s : System Handler} {rest : List Out}
    (phase : s.phase = .programming rest) :
    Reaches (Step image) s (rest.map .program ++ [.programmed])
      { s with pair := rest.foldl (fun pair out => send out pair) s.pair, phase := .running } := by
  induction rest generalizing s with
  | nil => exact .snoc .refl (.programmed phase)
  | cons out rest ih =>
      let next : System Handler :=
        { s with pair := send out s.pair, phase := .programming rest }
      have step : Step image s (.program out) next := .program phase
      have phase' : next.phase = .programming rest := rfl
      exact (Reaches.refl.snoc step).trans (ih phase')

/-- The kernel after `init_pic`. -/
def System.booted : System Unit :=
  { System.sample with
    pair := initPic.foldl (fun pair out => send out pair) System.sample.pair
    phase := .running }

theorem System.booted_reached : Reaches (Step Image.sample) System.sample
    (initPic.map .program ++ [.programmed]) System.booted :=
  programs Image.sample rfl

/-- The keyboard's handler is registered. -/
def System.withKeyboard : System Unit :=
  { System.booted with
    interruptHandlers := registerInterruptHandler 33 () System.booted.interruptHandlers }

theorem System.withKeyboard_reached : Reaches (Step Image.sample) System.sample
    (initPic.map .program ++ [.programmed] ++ [.register 33 ()]) System.withKeyboard :=
  System.booted_reached.snoc (.register rfl)

/-- A key is pressed, its interrupt handled, and another one pressed in between. -/
def keyEvents (keyboard : Input) : List (Event Unit) :=
  [.raise keyboard, .setInterrupts true, .interrupt (vectorOf keyboard), .raise keyboard,
    .eoi ⟨pic1Command, picEoi⟩, .call 33 (), .setInterrupts true]

theorem keyEvents_run : ∃ s,
    Reaches (Step .sample) System.withKeyboard (keyEvents (.master 1)) s ∧
    s.phase = .running ∧ s.interrupts = true := by
  have device : Input.master 1 ≠ .wired := by decide
  obtain ⟨context, saved⟩ : ∃ context,
      received Image.sample (Stub.irq 1).vector 0 interruptedCpu = some context :=
    ⟨_, received_vector⟩
  have number : context.intNo = 33 := received_intNo rfl saved
  have raised : Reaches (Step .sample) System.withKeyboard ((keyEvents (.master 1)).take 1) _ :=
    Reaches.refl.snoc (.raise device)
  have enabled : Reaches (Step .sample) System.withKeyboard ((keyEvents (.master 1)).take 2) _ :=
    raised.snoc (.setInterrupts rfl)
  have taken : Reaches (Step .sample) System.withKeyboard ((keyEvents (.master 1)).take 3) _ :=
    enabled.snoc (.interrupt rfl rfl rfl saved)
  rw [number] at taken
  have again : Reaches (Step .sample) System.withKeyboard ((keyEvents (.master 1)).take 4) _ :=
    taken.snoc (.raise device)
  have ended : Reaches (Step .sample) System.withKeyboard ((keyEvents (.master 1)).take 5) _ :=
    again.snoc (.eoi rfl)
  have called : Reaches (Step .sample) System.withKeyboard ((keyEvents (.master 1)).take 6) _ :=
    ended.snoc (.call rfl rfl)
  exact ⟨_, called.snoc (.setInterrupts rfl), rfl, rfl⟩

/-- The desk answers the first key, and the second one can be answered next. -/
theorem refines_desk_key : ∃ s : System Unit,
    Reaches Desk.Step System.sample.desk ((initPic.map Event.program ++ [Event.programmed] ++
      [Event.register 33 ()] ++ keyEvents (.master 1)).filter Event.visible) s.desk ∧
    ∃ input after, Step Image.sample s (.interrupt (vectorOf input)) after := by
  obtain ⟨s, run, running, enabled⟩ := keyEvents_run
  obtain ⟨desk, next⟩ :=
    refines_desk System.sample_boots (System.withKeyboard_reached.trans run)
  exact ⟨s, desk, next running enabled⟩

/-- The second key still waits. -/
theorem requests_answered_key : ∃ s : System Unit,
    Reaches (Step .sample) System.withKeyboard (keyEvents (.master 1)) s ∧
    s.pair.requested (.master 1) = true := by
  obtain ⟨s, run, -⟩ := keyEvents_run
  have started : System.withKeyboard.phase.stage ≠ .starting := by decide
  have answered := requests_answered System.sample_boots System.withKeyboard_reached started run
    (by decide : Input.master 1 ≠ .wired)
  exact ⟨s, run, answered.1.mpr (.inr rfl)⟩

/-- The first key's handler is called. -/
theorem interrupts_handled_key : ∃ s : System Unit,
    Reaches (Step .sample) System.withKeyboard (keyEvents (.master 1)) s ∧
    Handled System.withKeyboard.interruptHandlers (keyEvents (.master 1)) s.phase.stage := by
  obtain ⟨s, run, -⟩ := keyEvents_run
  refine ⟨s, run, ?_⟩
  exact interrupts_handled System.sample_boots System.withKeyboard_reached rfl run
    fun n handler => by simp [keyEvents]

end TorchOS.Pic
