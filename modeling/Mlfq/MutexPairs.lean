import Mlfq.Lock.Table

/-! # Mutex pairs

Mutex users come in pairs over two locks. Each member takes the two locks in an order of its own.
A pair stays until both its members have gone. -/

namespace Mlfq

/-- A mutex user and its locks, in the order in which it takes them. -/
structure PairMember where
  pid : Pid
  first : LockId
  second : LockId
  /-- Whether the process has gone. -/
  retired : Bool := false
  deriving DecidableEq

/-- Two mutex users over the same two locks. -/
structure MutexPair where
  left : PairMember
  right : PairMember
  deriving DecidableEq

namespace MutexPair

/-- The pair of two processes over locks `a` and `b`. The first takes `a` before `b`; the second
does so too unless the pair is reversed. -/
def sharing (p1 p2 : Pid) (a b : LockId) (reversed : Bool) : MutexPair where
  left := { pid := p1, first := a, second := b }
  right := if reversed then { pid := p2, first := b, second := a }
    else { pid := p2, first := a, second := b }

/-- The member that is process `pid`. -/
def member? (q : MutexPair) (pid : Pid) : Option PairMember :=
  if q.left.pid = pid then some q.left
  else if q.right.pid = pid then some q.right
  else none

/-- The other member's process. -/
def partner? (q : MutexPair) (pid : Pid) : Option Pid :=
  if q.left.pid = pid then some q.right.pid
  else if q.right.pid = pid then some q.left.pid
  else none

/-- The pair after process `pid` has gone, if it is a member. -/
def retire? (q : MutexPair) (pid : Pid) : Option MutexPair :=
  if q.left.pid = pid then some { q with left := { q.left with retired := true } }
  else if q.right.pid = pid then some { q with right := { q.right with retired := true } }
  else none

/-- Whether both members have gone. -/
def isAbandoned (q : MutexPair) : Bool := q.left.retired && q.right.retired

end MutexPair

/-- The mutex pairs of the machine, oldest first. -/
structure MutexPairs where
  pairs : List MutexPair := []

namespace MutexPairs

/-- Adds a pair behind the others. -/
def add (t : MutexPairs) (q : MutexPair) : MutexPairs := ⟨t.pairs ++ [q]⟩

/-- The member that is process `pid`, in the oldest pair that has one. -/
def find? (t : MutexPairs) (pid : Pid) : Option PairMember := t.pairs.findSome? (·.member? pid)

/-- The partner of process `pid`. -/
def partner? (t : MutexPairs) (pid : Pid) : Option Pid := t.pairs.findSome? (·.partner? pid)

/-- Notes that process `pid` has gone. When its partner had gone before, the pair goes too and the
two locks it leaves behind are returned. -/
def retire (pid : Pid) : List MutexPair → Option (LockId × LockId) × List MutexPair
  | [] => (none, [])
  | q :: rest =>
    match q.retire? pid with
    | none =>
      let (locks, rest) := retire pid rest
      (locks, q :: rest)
    | some q =>
      if q.isAbandoned then (some (q.left.first, q.left.second), rest) else (none, q :: rest)

/-- The number of members. -/
def size (t : MutexPairs) : Nat := 2 * t.pairs.length

end MutexPairs
end Mlfq
