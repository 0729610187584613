import Mlfq.Proc.Basic

/-! # Events

Everything the scheduler does to a process, a lock or a channel is an event. -/

namespace Mlfq

/-- How important a log line is. -/
inductive Level where
  | warn
  | info
  | debug
  | trace
  deriving DecidableEq

/-- The name of a level. -/
def Level.name : Level → String
  | .warn => "WARN"
  | .info => "INFO"
  | .debug => "DEBUG"
  | .trace => "TRACE"

/-- Levels by number; a higher number is less important. -/
def Level.rank : Level → Nat
  | .warn => 0
  | .info => 1
  | .debug => 2
  | .trace => 3

/-- Something the scheduler did. -/
inductive Event where
  | admitted (pid : Pid) (kind : Proc.Kind)
  | dispatched (pid : Pid) (priority : Priority) (pc : Nat)
  /-- The timer fired while `pid`, or nobody, was running. -/
  | timerInterrupt (pid : Option Pid)
  /-- The quantum of `pid` ended, which is now at `priority`. -/
  | quantumExpired (pid : Pid) (priority : Priority)
  | ioTrap (pid : Pid) (device : DeviceId) (countdown : Nat)
  | ioCompleted (pid : Pid) (device : DeviceId)
  | lockAcquired (pid : Pid) (lock : LockId)
  | lockBlocked (pid : Pid) (lock : LockId) (holder : Option Pid)
  | lockReleased (pid : Pid) (lock : LockId) (woken : Nat)
  /-- A release of a lock that `pid` does not hold was ignored. -/
  | unlockSkipped (pid : Pid) (lock : LockId)
  | tryLock (pid : Pid) (lock : LockId) (acquired : Bool)
  | condWait (pid : Pid) (channel : ChannelId)
  | condSignal (pid : Pid) (channel : ChannelId) (woken : Option Pid)
  | produced (pid : Pid) (channel : ChannelId) (value : Nat)
  | consumed (pid : Pid) (channel : ChannelId) (value : Nat)
  | terminated (pid : Pid) (kind : Proc.Kind)
  | zombiesFlushed (count : Nat)
  | prioritiesReset (admitted : Nat)
  /-- `p1` holds `held1` and waits for `held2`; `p2` holds `held2` and waits for `held1`. -/
  | deadlockDetected (p1 p2 : Pid) (held1 held2 : LockId)
  | idle
  deriving DecidableEq

namespace Event

/-- The level at which an event is logged. -/
def level : Event → Level
  | .deadlockDetected .. => .warn
  | .dispatched .. | .ioTrap .. | .ioCompleted .. | .terminated .. | .zombiesFlushed ..
  | .prioritiesReset .. => .info
  | .idle | .timerInterrupt .. => .trace
  | _ => .debug

/-- The name under which events of this kind are counted. -/
def label : Event → String
  | .admitted .. => "admitted"
  | .dispatched .. => "dispatched"
  | .timerInterrupt .. => "timer_interrupt"
  | .quantumExpired .. => "quantum_expired"
  | .ioTrap .. => "io_trap"
  | .ioCompleted .. => "io_completed"
  | .lockAcquired .. => "lock_acquired"
  | .lockBlocked .. => "lock_blocked"
  | .lockReleased .. => "lock_released"
  | .unlockSkipped .. => "unlock_skipped"
  | .tryLock .. => "trylock"
  | .condWait .. => "cond_wait"
  | .condSignal .. => "cond_signal"
  | .produced .. => "produced"
  | .consumed .. => "consumed"
  | .terminated .. => "terminated"
  | .zombiesFlushed .. => "zombies_flushed"
  | .prioritiesReset .. => "priorities_reset"
  | .deadlockDetected .. => "deadlock"
  | .idle => "idle"

/-- One line of text: what happened, in eight columns, and to whom. -/
def render : Event → String
  | .admitted pid kind => s!"ADMIT    pid={pid} type={kind.name}"
  | .dispatched pid priority pc => s!"DISPATCH pid={pid} prio={priority.val} pc={pc}"
  | .timerInterrupt (some pid) => s!"TIMER    pid={pid}"
  | .timerInterrupt none => "TIMER    idle"
  | .quantumExpired pid priority => s!"EXPIRE   pid={pid} new_prio={priority.val}"
  | .ioTrap pid device countdown => s!"IO_TRAP  pid={pid} dev={device} countdown={countdown}"
  | .ioCompleted pid device => s!"IO_DONE  pid={pid} dev={device}"
  | .lockAcquired pid lock => s!"LOCK     pid={pid} lock={lock}"
  | .lockBlocked pid lock (some holder) => s!"BLOCK    pid={pid} lock={lock} holder={holder}"
  | .lockBlocked pid lock none => s!"BLOCK    pid={pid} lock={lock}"
  | .lockReleased pid lock woken => s!"UNLOCK   pid={pid} lock={lock} woken={woken}"
  | .unlockSkipped pid lock => s!"UNLOCK   pid={pid} lock={lock} skipped (not holder)"
  | .tryLock pid lock acquired => s!"TRYLOCK  pid={pid} lock={lock} acquired={acquired}"
  | .condWait pid channel => s!"WAIT     pid={pid} chan={channel}"
  | .condSignal pid channel (some woken) => s!"SIGNAL   pid={pid} chan={channel} woke={woken}"
  | .condSignal pid channel none => s!"SIGNAL   pid={pid} chan={channel} no waiters"
  | .produced pid channel value => s!"PRODUCE  pid={pid} chan={channel} value={value}"
  | .consumed pid channel value => s!"CONSUME  pid={pid} chan={channel} value={value}"
  | .terminated pid kind => s!"EXIT     pid={pid} type={kind.name}"
  | .zombiesFlushed count => s!"REAP     count={count}"
  | .prioritiesReset count => s!"RESET    admitted={count}"
  | .deadlockDetected p1 p2 held1 held2 =>
    s!"DEADLOCK pid={p1} holds lock={held1} pid={p2} holds lock={held2}"
  | .idle => "IDLE"

end Event
end Mlfq
