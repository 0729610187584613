/-! # Why the dispatcher runs -/

namespace Mlfq

/-- The occasion of a dispatcher run. -/
inductive Cause where
  /-- Nothing is running. -/
  | idle
  /-- The timer fired. -/
  | timer
  /-- A device finished a request. -/
  | ioCompletion
  /-- The running process ended. -/
  | termination
  /-- The running process parked on a device. -/
  | ioTrap
  /-- The running process parked on a lock. -/
  | lockTrap
  /-- The running process parked on a channel. -/
  | rendezvousTrap
  deriving DecidableEq

namespace Cause

/-- Whether a timer interrupt in flight goes first. -/
def yieldsToTimer (cause : Cause) : Bool := cause != .timer

/-- Whether an I/O interrupt in flight goes first. -/
def yieldsToIo : Cause → Bool
  | .ioTrap | .lockTrap | .rendezvousTrap => true
  | _ => false

theorem yieldsToTimer_of_yieldsToIo {cause : Cause} (h : cause.yieldsToIo = true) :
    cause.yieldsToTimer = true := by
  cases cause <;> simp_all [yieldsToIo, yieldsToTimer]

end Cause

/-- The parts of a dispatcher run. -/
inductive Phase where
  /-- Bring all levels back to the highest when the reset interval is over. -/
  | priorityReset
  /-- Move new processes to the ready queue. -/
  | admission
  /-- On a timer interrupt, demote the running process and queue it again. -/
  | preemption
  /-- Give the free CPU to the process served next. -/
  | dispatching
  /-- Drop the ended processes when there are enough of them. -/
  | reaping
  deriving DecidableEq

/-- The parts in the order in which they run. -/
def Phase.all : List Phase := [.priorityReset, .admission, .preemption, .dispatching, .reaping]

end Mlfq
