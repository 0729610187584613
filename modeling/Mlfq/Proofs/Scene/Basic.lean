import Mlfq.Proofs.Run.Basic
import Mlfq.Proofs.Scene.Service

/-! # Scenes

A scene is what can be seen of a run when the order of service is left out: the processes that can
be served, those that are parked and where, what they share, and the books. `Scene.Step` says once
what can happen to it. -/

namespace Mlfq

open Queue (cores)

/-- Where the processes are and what they share. -/
structure Scene where
  /-- Whether a process can release only locks it holds. -/
  strict : Bool
  /-- The processes that are new, ready or running. -/
  free : Multiset Proc
  devices : List Queue
  locks : LockTable
  pairs : MutexPairs
  channels : Registry ChannelId Channel
  nextChannel : Nat
  zombies : Queue
  monitor : DeadlockMonitor
  arrived : List Arrival
  dropped : Queue

/-- The running process, with the counter of the CPU. -/
def Machine.onCpu {σ : Type} (m : Machine σ) : Queue :=
  (m.running.map fun p => { p with pc := m.cpuPc }).toList

/-- The scene of a moment of a run. -/
def Ledger.scene {σ : Type} (l : Ledger σ) : Scene where
  strict := l.machine.config.strictUnlock
  free := cores l.machine.newcomers + cores l.machine.ready.toList + cores l.machine.onCpu
  devices := l.machine.devices.map (·.queue)
  locks := l.machine.locks
  pairs := l.machine.pairs
  channels := l.machine.channels
  nextChannel := l.machine.nextChannel
  zombies := l.machine.zombies
  monitor := l.machine.monitor
  arrived := l.arrived
  dropped := l.dropped

namespace Scene

/-- Removes a lock. The processes that were parked on it are free. -/
def dropLock (s : Scene) (id : LockId) : Scene :=
  match s.locks.get? id with
  | none => s
  | some l => { s with locks := s.locks.erase id, free := cores l.waiters + s.free }

section DropLock

variable (s : Scene) (id : LockId)

@[simp] theorem strict_dropLock : (s.dropLock id).strict = s.strict := by
  unfold dropLock; split <;> rfl

@[simp] theorem devices_dropLock : (s.dropLock id).devices = s.devices := by
  unfold dropLock; split <;> rfl
@[simp] theorem pairs_dropLock : (s.dropLock id).pairs = s.pairs := by
  unfold dropLock; split <;> rfl
@[simp] theorem channels_dropLock : (s.dropLock id).channels = s.channels := by
  unfold dropLock; split <;> rfl
@[simp] theorem nextChannel_dropLock : (s.dropLock id).nextChannel = s.nextChannel := by
  unfold dropLock; split <;> rfl
@[simp] theorem zombies_dropLock : (s.dropLock id).zombies = s.zombies := by
  unfold dropLock; split <;> rfl
@[simp] theorem monitor_dropLock : (s.dropLock id).monitor = s.monitor := by
  unfold dropLock; split <;> rfl
@[simp] theorem arrived_dropLock : (s.dropLock id).arrived = s.arrived := by
  unfold dropLock; split <;> rfl
@[simp] theorem dropped_dropLock : (s.dropLock id).dropped = s.dropped := by
  unfold dropLock; split <;> rfl

end DropLock

/-- Nothing comes of a trap of process `p`: what it is about does not exist, or a lock is kept from
being released by a process that does not hold it, or `p` has no side in a rendezvous. -/
def Ignores (s : Scene) (p : Proc) : Trap → Prop
  | .io device => s.devices[device.num]? = none
  | .lock id | .tryLock id => s.locks.get? id = none
  | .unlock id | .tryUnlock id => ∀ l, s.locks.get? id = some l → l.holder ≠ some p.pid
  | .rendezvousAcquire id | .rendezvousRelease id => s.channels.get? id = none
  | .rendezvousBody id => s.channels.get? id = none ∨ Channel.Role.ofKind? p.kind = none

/-- One of the free processes takes a step. The others are `rest`, and at its new counter it raises
a trap or none. -/
structure Runs (s : Scene) (p p' : Proc) (rest : Multiset Proc) (t : Option Trap) : Prop where
  running : s.free = p ::ₘ rest
  advances : p.Advances p'
  trap : p'.trapAt p'.pc s.pairs = .ok t

/-- What can happen to a scene. -/
inductive Step : Scene → Scene → Prop
  | scan {s : Scene} : Step s { s with monitor := (s.monitor.scan s.pairs s.locks).2 }
  | single {s : Scene} (p : Proc) :
    Step s { s with free := p.core ::ₘ s.free, arrived := s.arrived ++ [.single p] }
  | mutexPair {s : Scene} (first second : Proc) (reversed : Bool) :
    Step s { s with
      free := first.core ::ₘ second.core ::ₘ s.free
      locks := s.locks.create.2.create.2
      pairs := s.pairs.add (.sharing first.pid second.pid s.locks.create.1
        s.locks.create.2.create.1 reversed)
      arrived := s.arrived ++ [.mutexPair first second reversed] }
  | rendezvousPair {s : Scene} (producer consumer : Proc) :
    Step s { s with
      free := (producer.bindChannel ⟨s.nextChannel⟩).core ::ₘ
        (consumer.bindChannel ⟨s.nextChannel⟩).core ::ₘ s.free
      locks := s.locks.reserve.2
      channels := s.channels.add ⟨s.nextChannel⟩
        (.between s.locks.reserve.1 producer.pid consumer.pid)
      nextChannel := s.nextChannel + 1
      arrived := s.arrived ++ [.rendezvousPair producer consumer] }
  /-- A process takes a step and goes on. -/
  | goOn {s : Scene} {p p' : Proc} {rest : Multiset Proc} {t : Option Trap}
    (runs : s.Runs p p' rest t) (ignored : ∀ t' ∈ t, s.Ignores p' t') :
    Step s { s with free := p' ::ₘ rest }
  /-- A process takes a step and is parked on a device. -/
  | request {s : Scene} {p p' r : Proc} {rest : Multiset Proc} {d : DeviceId} {q : Queue}
    (runs : s.Runs p p' rest (some (.io d))) (found : s.devices[d.num]? = some q)
    (core : r.core = p') :
    Step s { s with free := rest, devices := s.devices.set d.num (q.enqueue r) }
  /-- A process takes a step and is served by a lock of the table. -/
  | table {s : Scene} {p p' : Proc} {rest : Multiset Proc} {t : Trap} {id : LockId}
    {r : Lock.Request} {l l' : Lock} {out : Multiset Proc} (runs : s.Runs p p' rest (some t))
    (request : t.tableRequest? = some (id, r)) (found : s.locks.get? id = some l)
    (serves : Lock.Serves p' r l l' out)
    (owned : s.strict = true → r = .release → l.holder = some p'.pid) :
    Step s { s with free := out + rest, locks := s.locks.set l' }
  /-- A process takes a step and is served by a channel. -/
  | channel {s : Scene} {p p' : Proc} {rest : Multiset Proc} {t : Trap} {id : ChannelId}
    {c c' : Channel} {out : Multiset Proc} (runs : s.Runs p p' rest (some t))
    (request : t.channel? = some id) (found : s.channels.get? id = some c)
    (serves : Channel.Serves p' t c c' out) :
    Step s { s with free := out + rest, channels := s.channels.set id c' }
  /-- A device finishes the request at its head. -/
  | complete {s : Scene} {p : Proc} {d : DeviceId} {q : Queue}
    (found : s.devices[d.num]? = some (p :: q)) :
    Step s { s with
      free := { p with pc := p.pc + 1 }.core ::ₘ s.free, devices := s.devices.set d.num q }
  | terminate {s : Scene} {p q : Proc} {rest : Multiset Proc} (running : s.free = p ::ₘ rest)
    (done : p.shouldTerminate = true) (core : q.core = p) :
    Step s { s with free := rest, zombies := s.zombies.enqueue q }
  /-- It is noted in its mutex pair that an ended process goes. -/
  | retire {s : Scene} {p : Proc} {rest : Queue} {pairs : List MutexPair}
    (zombie : s.zombies = p :: rest)
    (h : MutexPairs.retire p.pid s.pairs.pairs = (none, pairs)) :
    Step s { s with pairs := ⟨pairs⟩ }
  /-- The second member of a mutex pair goes, and the pair and its locks with it. -/
  | dissolve {s : Scene} {p : Proc} {rest : Queue} {pairs : List MutexPair} {a b : LockId}
    (zombie : s.zombies = p :: rest)
    (h : MutexPairs.retire p.pid s.pairs.pairs = (some (a, b), pairs)) :
    Step s (({ s with pairs := ⟨pairs⟩ }.dropLock a).dropLock b)
  /-- An ended process that has no channel is dropped. -/
  | drop {s : Scene} {p : Proc} {rest : Queue} (zombie : s.zombies = p :: rest)
    (alone : ∀ id, p.channel? = some id → s.channels.get? id = none) :
    Step s { s with zombies := rest, dropped := s.dropped ++ [p] }
  /-- An ended process is dropped, and its channel stays. -/
  | leave {s : Scene} {p : Proc} {rest : Queue} {id : ChannelId} {c : Channel}
    (zombie : s.zombies = p :: rest) (bound : p.channel? = some id)
    (found : s.channels.get? id = some c) (stays : (c.retire p.pid).isAbandoned = false) :
    Step s { s with
      zombies := rest, dropped := s.dropped ++ [p]
      channels := s.channels.set id (c.retire p.pid) }
  /-- An ended process is dropped, and its channel goes with it. -/
  | close {s : Scene} {p : Proc} {rest : Queue} {id : ChannelId} {c : Channel}
    (zombie : s.zombies = p :: rest) (bound : p.channel? = some id)
    (found : s.channels.get? id = some c) (goes : (c.retire p.pid).isAbandoned = true) :
    Step s { s with
      zombies := rest, dropped := s.dropped ++ [p], channels := s.channels.erase id }

theorem Step.congr {s s' s'' : Scene} (h : Step s s') (e : s' = s'') : Step s s'' := e ▸ h

/-- One scene comes after another. -/
abbrev Steps : Scene → Scene → Prop := Relation.ReflTransGen Step

end Scene
end Mlfq
