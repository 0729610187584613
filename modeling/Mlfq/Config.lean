import Mlfq.Duration
import Mlfq.Priority
import Mlfq.Random.Seed

/-! # Configuration

The parameters of a simulation, and the defects for which one is refused. A configuration with two
defects is refused for the one that `Config.defect?` looks for first. -/

namespace Mlfq

/-- Limits on the processes a random workload creates. -/
structure Caps where
  /-- The most I/O-bound processes alive at a time. -/
  ioLive : Nat := 50
  /-- The most compute-bound processes alive at a time. -/
  computeLive : Nat := 25
  /-- The most mutex users ever created. -/
  mutexCreated : Nat := 50
  /-- The most producers, and as many consumers, ever created. -/
  rendezvousPairs : Nat := 10
  deriving DecidableEq

/-- The parameters of a simulation. -/
structure Config where
  /-- The number of CPU cycles after which the run ends. -/
  iterations : Nat := 1000000
  timerInterval : Duration := .ofMillis 10
  /-- The time one unit of a device countdown takes. -/
  ioTick : Duration := .ofMicros 1
  ioDevices : Nat := 2
  /-- The quantum of level 0, in cycles. -/
  baseQuantum : Nat := 5
  /-- What each further level adds to the quantum, in cycles. -/
  quantumStep : Nat := 8
  /-- Priorities are reset every so many quanta of the middle level. -/
  resetMultiple : Nat := 8
  /-- Dispatches and idle cycles between two deadlock scans. -/
  scanInterval : Nat := 10
  /-- Ended processes are dropped once there are so many of them. -/
  zombieThreshold : Nat := 4
  /-- Whether the second member of a random mutex pair takes the locks in reverse order. -/
  reversePairs : Bool := true
  /-- Whether a process can release only locks it holds. -/
  strictUnlock : Bool := false
  /-- A random batch considers fewer processes than this. -/
  maxBatch : Nat := 40
  caps : Caps := {}
  seed : Seed := 1
  /-- Whether events are kept. -/
  recordTrace : Bool := true

namespace Config

/-- No quantum is longer than this. -/
def maxQuantum : Nat := 1000000

/-- No unit of a device countdown takes longer than this. -/
def maxIoTick : Duration := .ofParts 1 0

/-- The quantum of a level in cycles. Levels are words, and so are quanta. -/
def quantum (c : Config) (level : Nat) : Nat :=
  Word.satAdd (Word.satMul c.quantumStep (level % Word.limit)) c.baseQuantum

/-- The number of cycles between two priority resets. -/
def resetInterval (c : Config) : Nat := c.quantum 8 * c.resetMultiple

/-- What can be wrong with a configuration. -/
inductive Defect where
  | noIterations
  | tooFewDevices (devices : Nat)
  | noTimerInterval
  | noQuantum
  | quantumTooLong (base step : Nat)
  | ioTickTooLong (tick : Duration)
  | noResetMultiple
  | noScanInterval
  | noZombieThreshold
  | batchTooSmall (maxBatch : Nat)
  deriving DecidableEq

/-- The text under which a defect is reported. -/
def Defect.message : Defect → String
  | .noIterations => "iterations must be positive"
  | .tooFewDevices devices => s!"at least 2 I/O devices are required, got {devices}"
  | .noTimerInterval => "timer interval must be non-zero"
  | .noQuantum => "priority 0 quantum must be positive"
  | .quantumTooLong base step =>
    s!"lowest priority quantum ({base} + {step} * 15) exceeds {maxQuantum} cycles"
  | .ioTickTooLong tick => s!"I/O tick {tick.render} exceeds {maxIoTick.render}"
  | .noResetMultiple => "priority reset multiple must be positive"
  | .noScanInterval => "deadlock check interval must be positive"
  | .noZombieThreshold => "zombie threshold must be positive"
  | .batchTooSmall maxBatch => s!"max batch ({maxBatch}) must be at least 2"

/-- The defects with the conditions under which they hold, in the order in which they are looked
for. -/
def checks (c : Config) : List (Bool × Defect) := [
  (c.iterations == 0, .noIterations),
  (c.ioDevices < 2, .tooFewDevices c.ioDevices),
  (c.timerInterval.nanos == 0, .noTimerInterval),
  (c.baseQuantum == 0, .noQuantum),
  (maxQuantum < c.quantum 15, .quantumTooLong c.baseQuantum c.quantumStep),
  (maxIoTick.nanos < c.ioTick.nanos, .ioTickTooLong c.ioTick),
  (c.resetMultiple == 0, .noResetMultiple),
  (c.scanInterval == 0, .noScanInterval),
  (c.zombieThreshold == 0, .noZombieThreshold),
  (c.maxBatch < 2, .batchTooSmall c.maxBatch)]

/-- The first defect of a configuration. -/
def defect? (c : Config) : Option Defect := (c.checks.find? (·.1)).map (·.2)

/-- If a configuration has no defect, no check finds one. -/
theorem check_eq_false {c : Config} (valid : c.defect? = none) (i : Nat) {found : Bool} {d : Defect}
    (h : c.checks[i]? = some (found, d)) : found = false := by
  have none := List.find?_eq_none.1 (Option.map_eq_none_iff.1 valid)
  exact Bool.eq_false_iff.2 (none _ (List.mem_of_getElem? h))

end Config
end Mlfq
