import Mlfq.Machine.Episode

/-! # Whole runs

A simulation boots the machine, runs it up to its last cycle and then lets the devices finish what
they were asked for. Interrupts arrive only at the end; a run that is to be interrupted earlier is
made of episodes. -/

namespace Mlfq

/-- Why a simulation has no outcome. -/
inductive Simulation.Failure where
  /-- The configuration was refused. -/
  | defect (d : Config.Defect)
  | crash (c : Crash)

/-- The text under which a failure is reported. -/
def Simulation.Failure.message : Simulation.Failure → String
  | .defect d => s!"invalid simulation config: {d.message}"
  | .crash c => c.fault.message

/-- A simulation after its end. -/
structure Simulation (σ : Type) where
  machine : Machine σ
  /-- Whether the run was stopped before its last cycle. -/
  interrupted : Bool

namespace Simulation

variable {σ : Type} [Workload σ]

/-- Cycles until the run ends, at most `fuel`. -/
def cycles : Nat → Machine σ → Except Crash (Machine σ)
  | 0, m => .ok m
  | fuel + 1, m => do
    let m ← m.tick
    if m.executing then cycles fuel m else return m

/-- So many I/O interrupts of one device. -/
def completions (device : DeviceId) : Nat → Machine σ → Except Crash (Machine σ)
  | 0, m => .ok m
  | n + 1, m => do completions device n (← m.ioInterrupt device [])

/-- Lets a device finish all its requests. -/
def drain (m : Machine σ) (device : Nat) : Except Crash (Machine σ) :=
  completions ⟨device⟩ ((m.devices[device]?.map (·.queue.length)).getD 0) m

/-- A run of the machine. With `shutdown` it is stopped before its first cycle. -/
def runMachine (m : Machine σ) (shutdown : Bool) : Except Crash (Simulation σ) := do
  let m ← m.boot
  let last ← if shutdown then pure m else cycles m.config.iterations m
  let m ← (List.range last.devices.length).foldlM drain { last with executing := false }
  return { machine := m, interrupted := shutdown && last.executing }

/-- A run with the given configuration and workload. -/
def run (config : Config) (workload : σ) (shutdown : Bool) (logLevel : Option Level) :
    Except Failure (Simulation σ) :=
  match config.defect? with
  | some d => .error (.defect d)
  | none => (runMachine (.start config workload logLevel) shutdown).mapError .crash

end Simulation
end Mlfq
