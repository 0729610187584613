import Mlfq.Machine.Basic

/-! # Trap handlers

What the machine does when the running process raises a trap. A handler either lets the process go
on or parks it; then the CPU is free and the dispatcher has to run. A parked process resumes so
that it meets the same trap again: one step before the acquisition of a lock, two steps before the
point of a rendezvous, whose lock it has to take again. -/

namespace Mlfq.Machine

variable {σ : Type}

/-! ## I/O -/

/-- Draws the time of a request made at a priority: its quantum and 10 to 109 more. -/
def drawCountdown (m : Machine σ) (priority : Priority) : Nat × Machine σ :=
  let (n, gen) := m.gen.below 100
  (Word.satAdd (m.config.quantum priority.val) (10 + n), { m with gen })

/-- Parks the running process on a device. A device that does not exist takes no request. -/
def startIo (m : Machine σ) (device : DeviceId) : Bool × Machine σ :=
  match m.devices[device.num]?, m.running with
  | some d, some p =>
    let (countdown, m) := m.drawCountdown p.priority
    let d : Device :=
      { queue := d.queue.enqueue { p with pc := m.cpuPc, state := .blocked }
        countdown := if d.queue.isEmpty then countdown else d.countdown }
    let m := { m with running := none, devices := m.devices.set device.num d }
    (true, m.emit (.ioTrap p.pid device countdown))
  | _, _ => (false, m)

/-- Finishes the request at the head of a device: the process becomes ready at the point after its
trap, and the next request starts. An idle device has nothing to finish. -/
def completeIo (m : Machine σ) (device : DeviceId) : Except Crash (Option (Machine σ)) :=
  match m.devices[device.num]? with
  | none => .ok none
  | some d =>
    match d.queue.dequeue with
    | none => .ok none
    | some (p, queue) => do
      let pc ← m.attempt (Word.succ p.pc)
      let m := { m with ready := m.ready.enqueue { p with pc } }
      let (countdown, m) :=
        match queue.head? with
        | none => (0, m)
        | some next => m.drawCountdown next.priority
      let m := { m with
        devices := m.devices.set device.num { queue, countdown }
        ioCompletions := m.ioCompletions + 1 }
      let m := m.measure fun c => { c with ioCompletions := c.ioCompletions + 1 }
      return some (m.emit (.ioCompleted p.pid device))

/-! ## Locks -/

/-- The running process asks for a lock. -/
def lock (m : Machine σ) (id : LockId) : Bool × Machine σ :=
  match m.running with
  | none => (false, m)
  | some p =>
    match m.locks.get? id with
    | none => (false, m.log (.missingLock p.pid id))
    | some l =>
      match l.acquire { p with pc := m.cpuPc - 1 } with
      | (.acquired p, taken) =>
        let m := { m with running := some p, locks := m.locks.set taken }
        (false, m.emit (.lockAcquired p.pid id))
      | (.blocked, parked) =>
        let m := { m with running := none, locks := m.locks.set parked }
        (true, m.emit (.lockBlocked p.pid id l.holder))

/-- The running process releases a lock. Unless the configuration is strict, it need not hold
it. -/
def unlock (m : Machine σ) (id : LockId) : Machine σ :=
  match m.running, m.locks.get? id with
  | some p, some l =>
    if m.config.strictUnlock && !l.isHeldBy p.pid then m.emit (.unlockSkipped p.pid id)
    else
      let (released, l, ready) := l.release m.ready
      let m := { m with locks := m.locks.set l, ready }
      if released.previous.isSome then m.emit (.lockReleased p.pid id released.woken) else m
  | _, _ => m

/-- The running process takes a lock if it is free. -/
def tryLock (m : Machine σ) (id : LockId) : Machine σ :=
  match m.running, m.locks.get? id with
  | some p, some l =>
    let (acquired, l) := l.tryAcquire p.pid
    { m with locks := m.locks.set l }.emit (.tryLock p.pid id acquired)
  | _, _ => m

/-! ## Channels -/

/-- The running process asks for the lock of a channel. -/
def enterChannel (m : Machine σ) (id : ChannelId) : Bool × Machine σ :=
  match m.running, m.channels.get? id with
  | some p, some c =>
    match c.lock.acquire { p with pc := m.cpuPc - 1 } with
    | (.acquired p, taken) =>
      let m := { m with running := some p, channels := m.channels.set id { c with lock := taken } }
      (false, m.log (.enteredChannel p.pid id))
    | (.blocked, parked) =>
      let m := { m with running := none, channels := m.channels.set id { c with lock := parked } }
      (true, m.emit (.lockBlocked p.pid c.lock.id c.lock.holder))
  | _, _ => (false, m)

/-- The running process releases the lock of a channel. -/
def leaveChannel (m : Machine σ) (id : ChannelId) : Machine σ :=
  match m.running, m.channels.get? id with
  | some p, some c =>
    let (released, lock, ready) := c.lock.release m.ready
    let m := { m with channels := m.channels.set id { c with lock }, ready }
    if 0 < released.woken then m.log (.leftChannel p.pid id released.woken) else m
  | _, _ => m

/-- The running process takes its turn on a channel, or parks if it is not its turn. A process
that is neither producer nor consumer does nothing. -/
def rendezvous (m : Machine σ) (id : ChannelId) : Bool × Machine σ :=
  match m.running, m.channels.get? id with
  | some p, some c =>
    match Channel.Role.ofKind? p.kind with
    | none => (false, m)
    | some role =>
      if c.mustWait role then
        let (_, c, ready) := c.wait role { p with pc := m.cpuPc - 2 } m.ready
        let m := { m with running := none, channels := m.channels.set id c, ready }
        (true, m.emit (.condWait p.pid id))
      else
        let (value, signal, c, ready) :=
          match role with
          | .producer => c.produce p.pid m.ready
          | .consumer => c.consume p.pid m.ready
        let m := { m with channels := m.channels.set id c, ready }
        let m :=
          match role with
          | .producer => m.emit (.produced p.pid id value)
          | .consumer => m.emit (.consumed p.pid id value)
        (false, m.emit (.condSignal p.pid id signal.pid?))
  | _, _ => (false, m)

/-! ## All traps -/

/-- Handles a trap. When the running process was parked, the cause for the dispatcher comes with
the machine. -/
def handleTrap (m : Machine σ) (trap : Trap) : Option Cause × Machine σ :=
  let m := m.measure fun c => { c with traps := c.traps.increment trap.label }
  match trap with
  | .io device =>
    let (parked, m) := m.startIo device
    (if parked then some .ioTrap else none, m)
  | .lock id =>
    let (parked, m) := m.lock id
    (if parked then some .lockTrap else none, m)
  | .unlock id | .tryUnlock id => (none, m.unlock id)
  | .tryLock id => (none, m.tryLock id)
  | .rendezvousAcquire channel =>
    let (parked, m) := m.enterChannel channel
    (if parked then some .rendezvousTrap else none, m)
  | .rendezvousBody channel =>
    let (parked, m) := m.rendezvous channel
    (if parked then some .rendezvousTrap else none, m)
  | .rendezvousRelease channel => (none, m.leaveChannel channel)

end Mlfq.Machine
