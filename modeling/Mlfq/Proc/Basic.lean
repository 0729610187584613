import Mlfq.Priority
import Mlfq.Text
import Mlfq.Proc.TrapPlan

/-! # Process records

A process record carries what the scheduler knows of one process and the registers it resumes
with. At any time a record lies in exactly one queue or runs. -/

namespace Mlfq

/-- What a process does, and so which traps it raises. -/
inductive Proc.Kind where
  | ioBound
  | computeBound
  | mutexUser
  | producer
  | consumer
  deriving DecidableEq

/-- The kinds in the order in which they are listed. -/
def Proc.Kind.all : List Proc.Kind :=
  [.ioBound, .computeBound, .mutexUser, .producer, .consumer]

/-- The name of a kind. -/
def Proc.Kind.name : Proc.Kind → String
  | .ioBound => "io"
  | .computeBound => "compute"
  | .mutexUser => "mutex"
  | .producer => "producer"
  | .consumer => "consumer"

/-- Where a process is in its life. -/
inductive Proc.State where
  | new
  | ready
  | running
  /-- Stopped by the timer, about to be queued again. -/
  | interrupted
  /-- Parked on a device, a lock or a condition variable. -/
  | blocked
  | halted
  | terminated
  deriving DecidableEq

/-- The name of a state. -/
def Proc.State.name : Proc.State → String
  | .new => "NEW"
  | .ready => "READY"
  | .running => "RUNNING"
  | .interrupted => "INTERRUPTED"
  | .blocked => "BLOCKED"
  | .halted => "HALTED"
  | .terminated => "TERMINATED"

/-- A process record. -/
structure Proc where
  pid : Pid
  kind : Proc.Kind
  state : Proc.State := .new
  priority : Priority := .highest
  /-- The program counter with which the process resumes. -/
  pc : Nat := 0
  /-- The saved instruction register. -/
  ir : Nat := 0
  /-- The saved status register. -/
  psr : Nat := 0
  /-- The saved general registers. -/
  registers : Vector Nat 8 := Vector.replicate 8 0
  /-- The largest program counter; the next one is 0. -/
  maxPc : Nat
  /-- The number of wraps after which the process ends; 0 means that it never ends. -/
  terminateAfter : Nat
  /-- How often the program counter has wrapped. -/
  wraps : Nat := 0
  plan : TrapPlan := .none
  /-- Whether the end of the process has been recorded. -/
  stopped : Bool := false

namespace Proc

/-- The record at priority `level`; levels past the last mean the last. -/
def atLevel (p : Proc) (level : Nat) : Proc := { p with priority := .clamped level }

/-- The channel of a process with a rendezvous plan. -/
def channel? (p : Proc) : Option ChannelId :=
  match p.plan with
  | .rendezvous _ channel => some channel
  | _ => none

/-- Points a rendezvous plan at `channel`. Other plans stay. -/
def bindChannel (p : Proc) (channel : ChannelId) : Proc :=
  match p.plan with
  | .rendezvous triggers _ => { p with plan := .rendezvous triggers channel }
  | _ => p

/-- Whether the process has wrapped often enough to end. -/
def shouldTerminate (p : Proc) : Bool :=
  p.terminateAfter != 0 && p.terminateAfter ≤ p.wraps

/-- One line with the number, the scheduling data and the registers of a process. -/
def render (p : Proc) : String :=
  let scheduling := s!"PID: 0x{Text.hex p.pid.num}, Priority: 0x{Text.hex p.priority.val}, " ++
    s!"state: {p.state.name}, type: {p.kind.name}, "
  let special := s!"PC: 0x{Text.hex4 p.pc}, IR: {Text.hex4 p.ir}, PSR: {Text.hex4 p.psr}"
  let general := p.registers.toList.zipIdx.map fun (value, i) => s!", r{i}: {Text.hex4 value}"
  scheduling ++ special ++ String.join general

@[simp] theorem pid_atLevel (p : Proc) (level : Nat) : (p.atLevel level).pid = p.pid := rfl

@[simp] theorem pid_bindChannel (p : Proc) (channel : ChannelId) :
    (p.bindChannel channel).pid = p.pid := by
  unfold bindChannel; split <;> rfl

@[simp] theorem kind_bindChannel (p : Proc) (channel : ChannelId) :
    (p.bindChannel channel).kind = p.kind := by
  unfold bindChannel; split <;> rfl

theorem shouldTerminate_iff (p : Proc) :
    p.shouldTerminate = true ↔ 0 < p.terminateAfter ∧ p.terminateAfter ≤ p.wraps := by
  simp only [shouldTerminate, Bool.and_eq_true, bne_iff_ne, decide_eq_true_eq]; omega

end Proc
end Mlfq
