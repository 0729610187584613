import Mlfq.Lock.Basic

/-! # Condition variables and rendezvous channels

A condition variable is a queue of processes that wait for a signal; the lock that belongs to it
is named at every use. A channel is a one-slot buffer between a producer and a consumer, guarded
by a lock of its own and two condition variables. -/

namespace Mlfq

/-- The processes that wait for a signal. -/
abbrev Condition := Queue

/-- The outcome of a signal. -/
inductive Signal where
  | noWaiters
  /-- `pid` was woken; `signalerHolds` tells whether the signaler holds the lock afterwards. -/
  | woken (pid : Pid) (signalerHolds : Bool)
  deriving DecidableEq

/-- The process that a signal woke. -/
def Signal.pid? : Signal → Option Pid
  | .noWaiters => none
  | .woken pid _ => some pid

namespace Condition

/-- Releases the lock and parks `p` on the condition in one step, so that no signal falls between
the two. -/
def wait (c : Condition) (l : Lock) (p : Proc) (ready : ReadyQueue) :
    Release × Condition × Lock × ReadyQueue :=
  let (released, l, ready) := l.release ready
  (released, Queue.enqueue c { p with state := .blocked }, l, ready)

/-- Sends the oldest waiter to the ready queue and tries to take the lock for the signaler. -/
def signal (c : Condition) (signaler : Pid) (l : Lock) (ready : ReadyQueue) :
    Signal × Condition × Lock × ReadyQueue :=
  match c with
  | [] => (.noWaiters, [], l, ready)
  | p :: rest =>
    let (holds, l) := l.tryAcquire signaler
    (.woken p.pid holds, rest, l, ready.enqueue p)

end Condition

/-- The side a process takes in a rendezvous. -/
inductive Channel.Role where
  | producer
  | consumer
  deriving DecidableEq

/-- The side of a kind of process, if it has one. -/
def Channel.Role.ofKind? : Proc.Kind → Option Channel.Role
  | .producer => some .producer
  | .consumer => some .consumer
  | _ => none

/-- The name of a side. -/
def Channel.Role.name : Channel.Role → String
  | .producer => "producer"
  | .consumer => "consumer"

/-- A one-slot buffer between two processes. -/
structure Channel where
  producer : Pid
  consumer : Pid
  lock : Lock
  /-- Where a consumer waits for a value. -/
  fill : Condition := []
  /-- Where a producer waits for a free slot. -/
  empty : Condition := []
  /-- The number of values produced, which is also the value produced last. -/
  counter : Nat := 0
  /-- Whether the slot holds a value. -/
  full : Bool := false
  /-- Whether the producer has gone. -/
  producerGone : Bool := false
  /-- Whether the consumer has gone. -/
  consumerGone : Bool := false

namespace Channel

/-- The channel of two processes with a free lock and an empty slot. -/
def between (lock : LockId) (producer consumer : Pid) : Channel :=
  { producer, consumer, lock := { id := lock } }

/-- Whether this side cannot take its turn: a producer needs an empty slot, a consumer a full
one. -/
def mustWait (c : Channel) : Role → Bool
  | .producer => c.full
  | .consumer => !c.full

/-- Parks `p` on the condition of its side and releases the lock. -/
def wait (c : Channel) (role : Role) (p : Proc) (ready : ReadyQueue) :
    Release × Channel × ReadyQueue :=
  match role with
  | .producer =>
    let (released, empty, lock, ready) := c.empty.wait c.lock p ready
    (released, { c with empty, lock }, ready)
  | .consumer =>
    let (released, fill, lock, ready) := c.fill.wait c.lock p ready
    (released, { c with fill, lock }, ready)

/-- Puts the next value into the slot and signals `fill`. -/
def produce (c : Channel) (pid : Pid) (ready : ReadyQueue) :
    Nat × Signal × Channel × ReadyQueue :=
  let (signal, fill, lock, ready) := c.fill.signal pid c.lock ready
  (c.counter + 1, signal, { c with counter := c.counter + 1, full := true, fill, lock }, ready)

/-- Takes the value out of the slot and signals `empty`. -/
def consume (c : Channel) (pid : Pid) (ready : ReadyQueue) :
    Nat × Signal × Channel × ReadyQueue :=
  let (signal, empty, lock, ready) := c.empty.signal pid c.lock ready
  (c.counter, signal, { c with full := false, empty, lock }, ready)

/-- Notes that `pid` has gone. -/
def retire (c : Channel) (pid : Pid) : Channel :=
  if pid = c.producer then { c with producerGone := true }
  else if pid = c.consumer then { c with consumerGone := true }
  else c

/-- Whether both sides have gone. -/
def isAbandoned (c : Channel) : Bool := c.producerGone && c.consumerGone

/-- Whether `pid` is parked anywhere on the channel. -/
def isAwaitedBy (c : Channel) (pid : Pid) : Bool :=
  c.fill.holds pid || c.empty.holds pid || c.lock.isAwaitedBy pid

end Channel
end Mlfq
