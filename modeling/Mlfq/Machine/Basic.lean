import Mlfq.Cause
import Mlfq.Channel
import Mlfq.Config
import Mlfq.DeadlockMonitor
import Mlfq.Journal.Basic
import Mlfq.Random.Xoshiro
import Mlfq.Workload.Basic

/-! # The machine

The state of a simulation: one virtual CPU, the process that runs on it, and every queue in which
another process can be. Each record is in one place at a time; the operations of the machine move
records between the places. `σ` is the state of the workload. -/

namespace Mlfq

/-- An I/O device: the parked processes, and the time the request at the head takes. -/
structure Device where
  queue : Queue := []
  countdown : Nat := 0

/-- The state of a simulation. -/
structure Machine (σ : Type) where
  config : Config
  workload : σ
  pids : PidAllocator := {}
  /-- The generator of device countdowns. -/
  gen : Xoshiro
  running : Option Proc := none
  /-- The program counter of the running process. -/
  cpuPc : Nat := 0
  /-- Cycles since the last priority reset. -/
  sinceReset : Nat := 0
  /-- Dispatches and idle cycles since the last deadlock scan. -/
  sinceScan : Nat := 0
  /-- The processes that have arrived and were not queued yet. -/
  newcomers : Queue := []
  ready : ReadyQueue := .empty
  /-- The ended processes that were not dropped yet. -/
  zombies : Queue := []
  devices : List Device
  locks : LockTable := {}
  channels : Registry ChannelId Channel := {}
  /-- The number of channels ever made. -/
  nextChannel : Nat := 0
  pairs : MutexPairs := {}
  monitor : DeadlockMonitor := {}
  /-- Whether the run goes on. -/
  executing : Bool := true
  /-- The number of cycles begun. -/
  iteration : Nat := 0
  dispatches : Nat := 0
  quantumExpiries : Nat := 0
  ioCompletions : Nat := 0
  priorityResets : Nat := 0
  census : Census := {}
  journal : Journal := {}

/-- A fault and what was observed before it. -/
structure Crash where
  fault : Fault
  journal : Journal

namespace Machine

variable {σ : Type}

/-- The machine before its first process. -/
def start (config : Config) (workload : σ) (logLevel : Option Level) : Machine σ :=
  { config, workload, gen := config.seed.countdowns,
    devices := List.replicate config.ioDevices {},
    journal := { tracing := config.recordTrace, logLevel } }

/-- Puts an event into the journal. -/
def emit (m : Machine σ) (e : Event) : Machine σ :=
  { m with journal := m.journal.event m.iteration e }

/-- Puts a message into the log. -/
def log (m : Machine σ) (message : Message) : Machine σ :=
  { m with journal := m.journal.log message }

/-- Changes the metrics. -/
def measure (m : Machine σ) (f : Metrics → Metrics) : Machine σ :=
  { m with journal := m.journal.measure f }

/-- The outcome of a computation on machine `m`; a fault becomes a crash of the run. -/
def attempt {α : Type} (m : Machine σ) (r : Except Fault α) : Except Crash α :=
  match r with
  | .ok a => .ok a
  | .error fault => .error ⟨fault, m.journal⟩

/-- The running process. -/
def runningPid? (m : Machine σ) : Option Pid := m.running.map (·.pid)

/-- The figures of the run so far. -/
def summary (m : Machine σ) (interrupted : Bool) : Summary :=
  { iterations := m.iteration
    dispatches := m.dispatches
    quantumExpiries := m.quantumExpiries
    ioCompletions := m.ioCompletions
    priorityResets := m.priorityResets
    deadlock := m.monitor.deadlocked
    deadlockedPairs := m.monitor.distinct
    interrupted
    census := m.census }

end Machine
end Mlfq
