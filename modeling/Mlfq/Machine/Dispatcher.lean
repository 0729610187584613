import Mlfq.Machine.Basic

/-! # The dispatcher

A dispatcher run goes through five phases: reset the priorities if it is time, admit new processes,
preempt on a timer interrupt, dispatch if the CPU is free, and drop ended processes if there are
enough. -/

namespace Mlfq.Machine

variable {σ : Type}

/-! ## Admission -/

/-- Counts a new process and puts it among the newcomers. -/
def admitProc (m : Machine σ) (p : Proc) : Machine σ :=
  let m := { m with census := m.census.noteCreated p.kind }
  let m := m.emit (.admitted p.pid p.kind)
  { m with newcomers := m.newcomers.enqueue { p with state := .new } }

/-- Admits an arrival. A mutex pair gets two locks, a rendezvous pair a channel. -/
def receive (m : Machine σ) : Arrival → Machine σ
  | .single p => m.admitProc p
  | .mutexPair first second reversed =>
    let (a, locks) := m.locks.create
    let (b, locks) := locks.create
    let pairs := m.pairs.add (.sharing first.pid second.pid a b reversed)
    let m := { m with locks, pairs }
    (m.admitProc first).admitProc second
  | .rendezvousPair producer consumer =>
    let id : ChannelId := ⟨m.nextChannel⟩
    let (lock, locks) := m.locks.reserve
    let channels := m.channels.add id (.between lock producer.pid consumer.pid)
    let m := { m with locks, channels, nextChannel := m.nextChannel + 1 }
    (m.admitProc (producer.bindChannel id)).admitProc (consumer.bindChannel id)

/-- Asks the workload for a batch and admits it. The number of processes admitted comes with the
machine. -/
def requestBatch [Workload σ] (m : Machine σ) : Except Crash (Nat × Machine σ) := do
  let batch ← m.attempt (Workload.batch m.workload m.pids m.census)
  let m := { m with workload := batch.rest, pids := batch.pids }
  return ((batch.arrivals.flatMap (·.procs)).length, batch.arrivals.foldl receive m)

/-- Admits the first batch. -/
def boot [Workload σ] (m : Machine σ) : Except Crash (Machine σ) := do
  let (admitted, m) ← m.requestBatch
  return m.log (.booted admitted)

/-! ## Phases -/

/-- Brings all processes that are ready or running back to the highest priority and asks for a
batch. -/
def resetPriorities [Workload σ] (m : Machine σ) : Except Crash (Machine σ) := do
  let m := { m with
    ready := m.ready.resetPriorities
    running := m.running.map fun (p : Proc) => { p with priority := .highest }
    sinceReset := 0 }
  let (admitted, m) ← m.requestBatch
  let m := { m with priorityResets := m.priorityResets + 1 }
  let m := m.measure fun c => { c with priorityResets := c.priorityResets + 1 }
  return m.emit (.prioritiesReset admitted)

/-- Moves the newcomers to the ready queue. -/
def admitNewcomers (m : Machine σ) : Machine σ :=
  { m with newcomers := [], ready := m.ready.enqueueAll m.newcomers }

/-- Demotes the running process and queues it again. -/
def preempt (m : Machine σ) : Machine σ :=
  match m.running with
  | none => m
  | some p =>
    let priority := p.priority.demoted
    let m := { m with running := none, quantumExpiries := m.quantumExpiries + 1 }
    let m := m.measure fun c => { c with quantumExpiries := c.quantumExpiries + 1 }
    let m := m.emit (.quantumExpired p.pid priority)
    { m with ready := m.ready.enqueue { p with pc := m.cpuPc, priority } }

/-- Runs the process served next, if there is one. -/
def dispatch (m : Machine σ) : Machine σ :=
  match m.ready.dequeue with
  | none => m.emit .idle
  | some (p, ready) =>
    let m := { m with
      ready
      running := some { p with state := .running }
      cpuPc := p.pc
      sinceScan := m.sinceScan + 1
      dispatches := m.dispatches + 1 }
    let m := m.measure fun c =>
      { c with dispatches := c.dispatches + 1, readyLength := ready.length }
    let m := m.emit (.dispatched p.pid p.priority p.pc)
    m.log (.readyQueues ready)

/-- Removes a lock and makes the processes parked on it ready. -/
def dropLock (m : Machine σ) (id : LockId) : Machine σ :=
  match m.locks.get? id with
  | none => m
  | some l => { m with locks := m.locks.erase id, ready := m.ready.enqueueAll l.waiters }

/-- Notes in the mutex pairs that process `pid` has gone. The locks of a pair go with its second
member. -/
def retireFromPair (m : Machine σ) (pid : Pid) : Machine σ :=
  let (locks, pairs) := MutexPairs.retire pid m.pairs.pairs
  let m := { m with pairs := ⟨pairs⟩ }
  match locks with
  | none => m
  | some (a, b) => (m.dropLock a).dropLock b

/-- Notes in its channel that `p` has gone. The channel goes with its second side. -/
def retireFromChannel (m : Machine σ) (p : Proc) : Machine σ :=
  match p.channel? with
  | none => m
  | some id =>
    match m.channels.get? id with
    | none => m
    | some c =>
      let c := c.retire p.pid
      if c.isAbandoned then { m with channels := m.channels.erase id }
      else { m with channels := m.channels.set id c }

/-- Drops an ended process. -/
def reapOne (m : Machine σ) (p : Proc) : Machine σ := (m.retireFromPair p.pid).retireFromChannel p

/-- Drops all ended processes. -/
def reap (m : Machine σ) : Machine σ :=
  let reaped := m.zombies
  let m := reaped.foldl reapOne { m with zombies := [] }
  let m := m.measure fun c => { c with zombieLength := 0 }
  m.emit (.zombiesFlushed reaped.length)

/-! ## Runs -/

/-- One phase of a dispatcher run. -/
def phase [Workload σ] (m : Machine σ) (cause : Cause) : Phase → Except Crash (Machine σ)
  | .priorityReset =>
    if m.config.resetInterval ≤ m.sinceReset then m.resetPriorities else .ok m
  | .admission => .ok m.admitNewcomers
  | .preemption => .ok (if cause = .timer then m.preempt else m)
  | .dispatching => .ok (if m.running.isNone then m.dispatch else m)
  | .reaping => .ok (if m.config.zombieThreshold ≤ m.zombies.length then m.reap else m)

/-- A dispatcher run that nothing interrupts. -/
def schedule [Workload σ] (m : Machine σ) (cause : Cause) : Except Crash (Machine σ) :=
  Phase.all.foldlM (fun m => m.phase cause) m

end Mlfq.Machine
