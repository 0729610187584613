import Mlfq.Machine.Dispatcher
import Mlfq.Machine.Traps

/-! # The parts of a CPU cycle

A cycle counts itself, steps the program counter of the running process, scans for deadlocks when
that is due, and lets the process end when it has wrapped often enough. The two kinds of interrupt
are here too, as they are when nothing interrupts them. -/

namespace Mlfq.Machine

variable {σ : Type}

/-- Counts a cycle. The run ends with the last one. -/
def beginCycle (m : Machine σ) : Machine σ :=
  { m with
    iteration := m.iteration + 1
    sinceReset := m.sinceReset + 1
    executing := m.executing && m.iteration + 1 < m.config.iterations }

/-- Counts a cycle in which nothing runs toward the next scan. -/
def countIdle (m : Machine σ) : Machine σ := { m with sinceScan := m.sinceScan + 1 }

/-- Steps the program counter of the running process; after the largest one it wraps to 0. -/
def advance (m : Machine σ) : Except Crash (Machine σ) :=
  match m.running with
  | none => .ok m
  | some p => do
    let pc ← m.attempt (Word.succ m.cpuPc)
    if pc ≤ p.maxPc then return { m with cpuPc := pc }
    let wraps ← m.attempt (Word.succ p.wraps)
    return { m with cpuPc := 0, running := some { p with wraps } }

/-- Reports a pair found in deadlock: as an event the first time, in the log later. -/
def reportDeadlock (m : Machine σ) (d : Deadlock) : Machine σ :=
  if d.firstSeen then
    (m.measure fun c => { c with deadlocks := c.deadlocks + 1 }).emit
      (.deadlockDetected d.p1 d.p2 d.heldByP1 d.heldByP2)
  else m.log (.stillDeadlocked d.p1 d.p2)

/-- Scans all pairs for deadlocks. -/
def scan (m : Machine σ) : Machine σ :=
  let (found, monitor) := m.monitor.scan m.pairs m.locks
  found.foldl reportDeadlock { m with sinceScan := 0, monitor }

/-- Scans if enough has happened since the last scan. -/
def scanIfDue (m : Machine σ) : Machine σ :=
  if m.config.scanInterval ≤ m.sinceScan then m.scan else m

/-- The trap that the running process raises at its program counter. -/
def pendingTrap (m : Machine σ) : Except Crash (Option Trap) :=
  match m.running with
  | none => .ok none
  | some p => m.attempt (p.trapAt m.cpuPc m.pairs)

/-- Ends the running process. -/
def terminate (m : Machine σ) (p : Proc) : Machine σ :=
  let m := { m with running := none, census := m.census.noteTerminated p.kind }
  let m := m.measure fun c => { c with terminations := c.terminations + 1 }
  let m := m.emit (.terminated p.pid p.kind)
  let zombies := m.zombies.enqueue { p with pc := m.cpuPc, state := .terminated, stopped := true }
  { m with zombies }.measure fun c => { c with zombieLength := zombies.length }

/-- Ends the running process if it is `pid` and has wrapped often enough. -/
def terminateIfDone (m : Machine σ) (pid : Pid) : Option (Machine σ) :=
  match m.running with
  | none => none
  | some p => if p.pid = pid && p.shouldTerminate then some (m.terminate p) else none

/-- Notes that the timer has fired: the running process stops where it is. -/
def raiseTimer (m : Machine σ) : Machine σ :=
  let running := m.running.map fun p => { p with state := .interrupted, pc := m.cpuPc }
  { m with running }.emit (.timerInterrupt m.runningPid?)

/-- A timer interrupt. -/
def timerInterrupt [Workload σ] (m : Machine σ) : Except Crash (Machine σ) :=
  m.raiseTimer.schedule .timer

end Mlfq.Machine
