import Mlfq.Machine.Cycle

/-! # Episodes

An episode is one action of the machine together with the interrupts that arrive while it runs.
Before every phase of its dispatcher runs an episode reaches a checkpoint. There the interrupts in
flight are delivered, provided the cause of the run yields to them: every cause but the timer
yields to the timer, and the traps yield to I/O. The action goes on afterwards from the machine
that the interrupts leave behind. -/

namespace Mlfq

/-- An interrupt in flight at a checkpoint. -/
inductive Interrupt where
  | timer
  /-- Device `device` has finished a request. The dispatcher run for it yields to the timer in its
  turn: entry `k` of `timers` is the number of timer interrupts at its checkpoint `k`. -/
  | io (device : DeviceId) (timers : List Nat)

/-- What can be seen of an episode from outside, step by step. -/
inductive Sighting where
  /-- A dispatcher run reached a checkpoint with this process running. -/
  | checkpoint (cause : Cause) (running : Option Proc)
  | timerDelivered
  | ioDelivered (device : DeviceId)
  /-- A request was queued on a device. -/
  | deviceNotified (device : DeviceId)

namespace Machine

variable {σ : Type} [Workload σ]

/-- So many timer interrupts, one after the other. -/
def timerInterrupts : Nat → Machine σ → Except Crash (Machine σ)
  | 0, m => .ok m
  | n + 1, m => do timerInterrupts n (← m.timerInterrupt)

/-- The given phases of a dispatcher run for a finished request, with so many timer interrupts
before each. -/
def completionPhases : List Phase → List Nat → Machine σ → Except Crash (Machine σ)
  | [], _, m => .ok m
  | phase :: rest, timers, m => do
    let m ← timerInterrupts (timers.headD 0) m
    let m ← m.phase .ioCompletion phase
    completionPhases rest timers.tail m

/-- An I/O interrupt of a device. Entry `k` of `timers` is the number of timer interrupts at
checkpoint `k` of its dispatcher run. -/
def ioInterrupt (m : Machine σ) (device : DeviceId) (timers : List Nat) :
    Except Crash (Machine σ) := do
  match ← m.completeIo device with
  | none => return m
  | some m => completionPhases Phase.all timers m

end Machine

/-- An action in progress. -/
structure Episode (σ : Type) where
  machine : Machine σ
  /-- The interrupts in flight at the checkpoints still to come, nearest first. -/
  upcoming : List (List Interrupt) := []
  /-- What was seen so far, latest first. -/
  seen : List Sighting := []

namespace Episode

variable {σ : Type} [Workload σ]

omit [Workload σ] in
/-- Notes something seen. -/
def note (e : Episode σ) (s : Sighting) : Episode σ := { e with seen := s :: e.seen }

omit [Workload σ] in
/-- What was seen, in order. -/
def sightings (e : Episode σ) : List Sighting := e.seen.reverse

/-- Delivers an interrupt if the dispatcher run yields to it. -/
def deliver (cause : Cause) (e : Episode σ) : Interrupt → Except Crash (Episode σ)
  | .timer =>
    if cause.yieldsToTimer then do
      let machine ← e.machine.timerInterrupt
      return { e with machine }.note .timerDelivered
    else .ok e
  | .io device timers =>
    if cause.yieldsToIo then do
      let machine ← e.machine.ioInterrupt device timers
      return { e with machine }.note (.ioDelivered device)
    else .ok e

/-- Reaches a checkpoint. -/
def checkpoint (e : Episode σ) (cause : Cause) : Except Crash (Episode σ) :=
  let e := e.note (.checkpoint cause e.machine.running)
  (e.upcoming.headD []).foldlM (deliver cause) { e with upcoming := e.upcoming.tail }

/-- A checkpoint and the phase after it. -/
def phase (e : Episode σ) (cause : Cause) (phase : Phase) : Except Crash (Episode σ) := do
  let e ← e.checkpoint cause
  let machine ← e.machine.phase cause phase
  return { e with machine }

/-- A dispatcher run. -/
def schedule (e : Episode σ) (cause : Cause) : Except Crash (Episode σ) :=
  Phase.all.foldlM (fun e => e.phase cause) e

/-- A timer interrupt. -/
def timerInterrupt (e : Episode σ) : Except Crash (Episode σ) :=
  { e with machine := e.machine.raiseTimer }.schedule .timer

/-- An I/O interrupt of a device. -/
def ioInterrupt (e : Episode σ) (device : DeviceId) : Except Crash (Episode σ) := do
  match ← e.machine.completeIo device with
  | none => return e
  | some machine => schedule { e with machine } .ioCompletion

/-- Handles a trap of the running process and runs the dispatcher if the process was parked. -/
def handleTrap (e : Episode σ) (trap : Trap) : Except Crash (Episode σ) :=
  let (cause, machine) := e.machine.handleTrap trap
  let e := { e with machine }
  match cause with
  | none => .ok e
  | some cause =>
    match trap with
    | .io device => (e.note (.deviceNotified device)).schedule cause
    | _ => e.schedule cause

/-- One CPU cycle. An idle CPU calls the dispatcher; a busy one steps the running process, handles
the trap that it raises and ends it when it is done. -/
def tick (e : Episode σ) : Except Crash (Episode σ) :=
  let m := e.machine.beginCycle
  match m.running with
  | none => { e with machine := m.countIdle.scanIfDue }.schedule .idle
  | some p => do
    let m := (← m.advance).scanIfDue
    let e := { e with machine := m }
    let e ←
      match ← m.pendingTrap with
      | none => pure e
      | some trap => e.handleTrap trap
    match e.machine.terminateIfDone p.pid with
    | none => return e
    | some machine => schedule { e with machine } .termination

end Episode

namespace Machine

variable {σ : Type} [Workload σ]

/-- One CPU cycle in which no interrupt arrives. -/
def tick (m : Machine σ) : Except Crash (Machine σ) := do
  return (← ({ machine := m : Episode σ }).tick).machine

/-- So many cycles. -/
def ticks : Nat → Machine σ → Except Crash (Machine σ)
  | 0, m => .ok m
  | n + 1, m => do ticks n (← m.tick)

end Machine
end Mlfq
