import Mlfq.ReadyQueue

/-! # Blocking locks

A lock has at most one holder and a queue of parked processes. A release sends all of them back
to the ready queue, where each tries again when it next runs; the first to run wins. -/

namespace Mlfq

/-- A mutual-exclusion lock. -/
structure Lock where
  id : LockId
  holder : Option Pid := none
  waiters : Queue := []

/-- The outcome of asking for a lock. -/
inductive Acquisition where
  /-- The process holds the lock and goes on. -/
  | acquired (p : Proc)
  /-- Another process holds the lock; the asking process is parked on it. -/
  | blocked

/-- The outcome of a release. -/
structure Release where
  /-- The holder before the release. -/
  previous : Option Pid
  /-- The number of parked processes sent to the ready queue. -/
  woken : Nat
  deriving DecidableEq

namespace Lock

/-- Whether `pid` holds the lock. -/
def isHeldBy (l : Lock) (pid : Pid) : Bool := l.holder == some pid

/-- Whether `pid` is parked on the lock. -/
def isAwaitedBy (l : Lock) (pid : Pid) : Bool := l.waiters.holds pid

/-- Gives the lock to `p` if it is free or already its own, and parks `p` otherwise. -/
def acquire (l : Lock) (p : Proc) : Acquisition × Lock :=
  match l.holder with
  | none => (.acquired p, { l with holder := some p.pid })
  | some holder =>
    if holder = p.pid then (.acquired p, l)
    else (.blocked, { l with waiters := l.waiters.enqueue { p with state := .blocked } })

/-- Gives the lock to `pid` if it is free, and tells whether `pid` now holds it. Nobody is
parked. -/
def tryAcquire (l : Lock) (pid : Pid) : Bool × Lock :=
  match l.holder with
  | none => (true, { l with holder := some pid })
  | some holder => (holder == pid, l)

/-- Takes the lock from its holder, whoever asks for it, and sends all parked processes to the
ready queue. Nothing happens to a free lock. -/
def release (l : Lock) (ready : ReadyQueue) : Release × Lock × ReadyQueue :=
  match l.holder with
  | none => (⟨none, 0⟩, l, ready)
  | some holder =>
    (⟨some holder, l.waiters.length⟩, { l with holder := none, waiters := [] },
      ready.enqueueAll l.waiters)

@[simp] theorem id_acquire (l : Lock) (p : Proc) : (l.acquire p).2.id = l.id := by
  unfold acquire; split <;> (try split) <;> rfl

@[simp] theorem id_tryAcquire (l : Lock) (pid : Pid) : (l.tryAcquire pid).2.id = l.id := by
  unfold tryAcquire; split <;> rfl

@[simp] theorem id_release (l : Lock) (ready : ReadyQueue) : (l.release ready).2.1.id = l.id := by
  unfold release; split <;> rfl

@[simp] theorem holder_release (l : Lock) (ready : ReadyQueue) :
    (l.release ready).2.1.holder = none := by
  unfold release; split <;> simp_all

end Lock
end Mlfq
