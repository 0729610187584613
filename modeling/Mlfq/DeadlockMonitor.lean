import Mlfq.MutexPairs

/-! # The deadlock monitor

Two mutex users are deadlocked when each holds one lock of their pair and waits for the other.
The monitor looks for this among all pairs. It reports and does not recover. -/

namespace Mlfq

/-- A pair found in deadlock. -/
structure Deadlock where
  p1 : Pid
  p2 : Pid
  /-- The lock that `p1` holds and `p2` waits for. -/
  heldByP1 : LockId
  /-- The lock that `p2` holds and `p1` waits for. -/
  heldByP2 : LockId
  /-- Whether the pair was not found in deadlock before. -/
  firstSeen : Bool
  deriving DecidableEq

/-- Whether `pid` holds one lock and waits for another. -/
def LockTable.holdsAndWaits (locks : LockTable) (pid : Pid) (held wanted : LockId) : Bool :=
  (locks.get? held).any (·.isHeldBy pid) && (locks.get? wanted).any (·.isAwaitedBy pid)

/-- The locks held by the left and by the right member, when each waits for the other's. -/
def MutexPair.cycle? (q : MutexPair) (locks : LockTable) : Option (LockId × LockId) :=
  let (a, b) := (q.left.first, q.left.second)
  if locks.holdsAndWaits q.left.pid a b && locks.holdsAndWaits q.right.pid b a then some (a, b)
  else if locks.holdsAndWaits q.left.pid b a && locks.holdsAndWaits q.right.pid a b then
    some (b, a)
  else none

/-- What the monitor remembers. -/
structure DeadlockMonitor where
  /-- The pairs ever found in deadlock. -/
  reported : List (Pid × Pid) := []
  /-- Whether a deadlock was ever found. -/
  deadlocked : Bool := false
  /-- The number of scans. -/
  scans : Nat := 0

namespace DeadlockMonitor

/-- Looks at the pairs in order and returns those in deadlock. -/
def inspect (locks : LockTable) :
    List MutexPair → DeadlockMonitor → List Deadlock × DeadlockMonitor
  | [], monitor => ([], monitor)
  | q :: rest, monitor =>
    match q.cycle? locks with
    | none => inspect locks rest monitor
    | some (heldByP1, heldByP2) =>
      let (p1, p2) := (q.left.pid, q.right.pid)
      let firstSeen := !monitor.reported.contains (p1, p2)
      let reported := if firstSeen then (p1, p2) :: monitor.reported else monitor.reported
      let (found, monitor) := inspect locks rest { monitor with reported, deadlocked := true }
      ({ p1, p2, heldByP1, heldByP2, firstSeen } :: found, monitor)

/-- One scan of all pairs. -/
def scan (monitor : DeadlockMonitor) (pairs : MutexPairs) (locks : LockTable) :
    List Deadlock × DeadlockMonitor :=
  inspect locks pairs.pairs { monitor with scans := monitor.scans + 1 }

/-- The number of pairs ever found in deadlock. -/
def distinct (monitor : DeadlockMonitor) : Nat := monitor.reported.length

end DeadlockMonitor
end Mlfq
