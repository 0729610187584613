import Mlfq.Channel
import Mlfq.Proofs.Scene.Core

/-! # What locks and channels do for a process

A lock or a channel serves the running process: it changes, and some processes are free afterwards,
the running one among them unless it was parked. The queue of a channel in which a side waits is
named by the side, so that the two sides of a rendezvous are one case. -/

namespace Mlfq

open Queue (cores)

/-! ## Locks -/

/-- What can be asked of a lock. -/
inductive Lock.Request where
  | acquire
  | attempt
  | release
  deriving DecidableEq

/-- The lock of the table that a trap is about, and what is asked of it. -/
def Trap.tableRequest? : Trap → Option (LockId × Lock.Request)
  | .lock id => some (id, .acquire)
  | .tryLock id => some (id, .attempt)
  | .unlock id | .tryUnlock id => some (id, .release)
  | _ => none

namespace Lock

/-- The lock after a release. -/
def freed (l : Lock) : Lock :=
  match l.holder with
  | none => l
  | some _ => { l with holder := none, waiters := [] }

/-- The processes that a release sends to the ready queue. -/
def woken (l : Lock) : Queue :=
  match l.holder with
  | none => []
  | some _ => l.waiters

theorem release_eq (l : Lock) (ready : ReadyQueue) :
    l.release ready = (⟨l.holder, l.woken.length⟩, l.freed, ready.enqueueAll l.woken) := by
  unfold release freed woken
  cases l.holder <;> rfl

@[simp] theorem id_freed (l : Lock) : l.freed.id = l.id := by unfold freed; split <;> rfl

@[simp] theorem holder_freed (l : Lock) : l.freed.holder = none := by
  unfold freed; split <;> simp_all

theorem waiters_freed_append (l : Lock) : l.freed.waiters ++ l.woken = l.waiters := by
  unfold freed woken; split <;> simp

/-- A lock is free or already the process's own, or another process has it. -/
theorem open_or_taken (l : Lock) (pid : Pid) :
    (l.holder = none ∨ l.holder = some pid) ∨ ∃ h, l.holder = some h ∧ h ≠ pid := by
  cases hh : l.holder with
  | none => exact .inl (.inl rfl)
  | some h =>
    by_cases hp : h = pid
    · exact .inl (.inr (congrArg some hp))
    · exact .inr ⟨h, rfl, hp⟩

theorem acquire_open {l : Lock} {p : Proc} (h : l.holder = none ∨ l.holder = some p.pid) :
    l.acquire p = (.acquired p, { l with holder := some p.pid }) := by
  unfold acquire
  rcases h with h | h
  · rw [h]
  · simp only [h, if_true]
    rw [← h]

theorem acquire_taken {l : Lock} {p : Proc} {h : Pid} (held : l.holder = some h)
    (other : h ≠ p.pid) :
    l.acquire p =
      (.blocked, { l with waiters := l.waiters.enqueue { p with state := .blocked } }) := by
  simp only [acquire, held, if_neg other]

theorem tryAcquire_open {l : Lock} {pid : Pid} (h : l.holder = none ∨ l.holder = some pid) :
    l.tryAcquire pid = (true, { l with holder := some pid }) := by
  unfold tryAcquire
  rcases h with h | h
  · rw [h]
  · simp only [h, beq_self_eq_true]
    rw [← h]

theorem tryAcquire_taken {l : Lock} {pid h : Pid} (held : l.holder = some h) (other : h ≠ pid) :
    l.tryAcquire pid = (false, l) := by
  simp only [tryAcquire, held, beq_eq_false_iff_ne.2 other]

/-- What a lock does for process `p`: the lock afterwards, and the processes that are free
afterwards. A parked process resumes one step before its trap. -/
inductive Serves (p : Proc) : Request → Lock → Lock → Multiset Proc → Prop
  | take {r : Request} {l : Lock} (hr : r ≠ .release)
    (free : l.holder = none ∨ l.holder = some p.pid) :
    Serves p r l { l with holder := some p.pid } {p}
  | park {l : Lock} {h : Pid} {q : Proc} (held : l.holder = some h) (other : h ≠ p.pid)
    (core : q.core = { p with pc := p.pc - 1 }) :
    Serves p .acquire l { l with waiters := l.waiters.enqueue q } 0
  | fail {l : Lock} {h : Pid} (held : l.holder = some h) (other : h ≠ p.pid) :
    Serves p .attempt l l {p}
  | release {l : Lock} : Serves p .release l l.freed (p ::ₘ cores l.woken)

theorem Serves.id_eq {p : Proc} {r : Request} {l l' : Lock} {out : Multiset Proc}
    (h : Serves p r l l' out) : l'.id = l.id := by
  cases h with
  | take | park | fail => rfl
  | release => exact id_freed l

end Lock

/-! ## Channels -/

/-- The other side of a rendezvous. -/
def Channel.Role.other : Role → Role
  | .producer => .consumer
  | .consumer => .producer

/-- The lock request that a trap makes of its channel. -/
def Trap.channelRequest? : Trap → Option Lock.Request
  | .rendezvousAcquire _ => some .acquire
  | .rendezvousRelease _ => some .release
  | _ => none

/-- The channel that a trap is about. -/
def Trap.channel? : Trap → Option ChannelId
  | .rendezvousAcquire id | .rendezvousBody id | .rendezvousRelease id => some id
  | _ => none

namespace Channel

/-- The condition on which a side waits. -/
def waiting (c : Channel) : Role → Queue
  | .producer => c.empty
  | .consumer => c.fill

/-- The process of a side. -/
def partner (c : Channel) : Role → Pid
  | .producer => c.producer
  | .consumer => c.consumer

/-- Everything parked on the channel. -/
def parked (c : Channel) : Queue := c.lock.waiters ++ (c.fill ++ c.empty)

/-- The channel after a side has parked `p`. -/
def parking (c : Channel) (p : Proc) : Role → Channel
  | .producer => { c with empty := c.empty.enqueue p, lock := c.lock.freed }
  | .consumer => { c with fill := c.fill.enqueue p, lock := c.lock.freed }

/-- The lock after a signal of `pid` on a condition with these waiters. -/
def signalled (c : Channel) (pid : Pid) : Queue → Lock
  | [] => c.lock
  | _ :: _ => (c.lock.tryAcquire pid).2

/-- The channel after process `pid` has taken the turn of a side. -/
def taking (c : Channel) (pid : Pid) : Role → Channel
  | .producer => { c with
      counter := c.counter + 1
      full := true
      fill := c.fill.tail
      lock := c.signalled pid c.fill }
  | .consumer => { c with full := false, empty := c.empty.tail, lock := c.signalled pid c.empty }

theorem wait_eq (c : Channel) (role : Role) (p : Proc) (ready : ReadyQueue) :
    (c.wait role p ready).2 =
      (c.parking { p with state := .blocked } role, ready.enqueueAll c.lock.woken) := by
  cases role <;> simp only [wait, Condition.wait, Lock.release_eq, parking]

theorem produce_eq (c : Channel) (pid : Pid) (ready : ReadyQueue) :
    (c.produce pid ready).2.2 =
      (c.taking pid .producer, ready.enqueueAll (c.fill.head?.toList)) := by
  simp only [produce, Condition.signal, taking, signalled]
  cases c.fill <;> rfl

theorem consume_eq (c : Channel) (pid : Pid) (ready : ReadyQueue) :
    (c.consume pid ready).2.2 =
      (c.taking pid .consumer, ready.enqueueAll (c.empty.head?.toList)) := by
  simp only [consume, Condition.signal, taking, signalled]
  cases c.empty <;> rfl

/-- What a channel does for process `p` that raises a trap: the channel afterwards, and the
processes that are free afterwards. A process that has to wait resumes two steps before its
trap. -/
inductive Serves (p : Proc) : Trap → Channel → Channel → Multiset Proc → Prop
  | lock {t : Trap} {r : Lock.Request} {c : Channel} {l : Lock} {out : Multiset Proc}
    (request : t.channelRequest? = some r) (h : Lock.Serves p r c.lock l out) :
    Serves p t c { c with lock := l } out
  | wait {id : ChannelId} {c : Channel} {role : Role} {q : Proc}
    (kind : Role.ofKind? p.kind = some role) (turn : c.mustWait role = true)
    (core : q.core = { p with pc := p.pc - 2 }) :
    Serves p (.rendezvousBody id) c (c.parking q role) (cores c.lock.woken)
  | turn {id : ChannelId} {c : Channel} {role : Role} (kind : Role.ofKind? p.kind = some role)
    (turn : c.mustWait role = false) :
    Serves p (.rendezvousBody id) c (c.taking p.pid role)
      (p ::ₘ cores (c.waiting role.other).head?.toList)

end Channel
end Mlfq
