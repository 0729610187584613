import Mlfq.MutexPairs
import Mlfq.Word

/-! # Traps

After every step of the program counter the running process may raise one trap. Its trap plan
decides which: the first matching trigger set wins. -/

namespace Mlfq

/-- A request of the running process. -/
inductive Trap where
  | io (device : DeviceId)
  | lock (id : LockId)
  | unlock (id : LockId)
  | tryLock (id : LockId)
  | tryUnlock (id : LockId)
  /-- One step before a rendezvous point: take the channel lock. -/
  | rendezvousAcquire (channel : ChannelId)
  /-- At a rendezvous point: produce or consume. -/
  | rendezvousBody (channel : ChannelId)
  /-- One step after a rendezvous point: release the channel lock. -/
  | rendezvousRelease (channel : ChannelId)
  deriving DecidableEq

namespace Trap

/-- The name under which traps of this kind are counted. -/
def label : Trap → String
  | .io _ => "io"
  | .lock _ => "lock"
  | .unlock _ => "unlock"
  | .tryLock _ => "trylock"
  | .tryUnlock _ => "tryunlock"
  | .rendezvousAcquire _ => "rendezvous_acquire"
  | .rendezvousBody _ => "rendezvous"
  | .rendezvousRelease _ => "rendezvous_release"

/-- The label of a trap and what it refers to. -/
def render (trap : Trap) : String :=
  match trap with
  | .io device => s!"io(dev={device})"
  | .lock id | .unlock id | .tryLock id | .tryUnlock id => s!"{trap.label}(lock={id})"
  | .rendezvousAcquire channel | .rendezvousBody channel | .rendezvousRelease channel =>
    s!"{trap.label}(chan={channel})"

end Trap

/-- The trap of a mutex program at `pc`, for a process that takes `first` before `second`. -/
def MutexProgram.trapAt (program : MutexProgram) (pc : Nat) (first second : LockId) :
    Option Trap :=
  let sets := [
    (program.lockFirst, Trap.lock first),
    (program.lockSecond, .lock second),
    (program.unlockFirst, .unlock first),
    (program.unlockSecond, .unlock second),
    (program.tryFirst, .tryLock first),
    (program.trySecond, .tryLock second),
    (program.tryUnlockFirst, .tryUnlock first),
    (program.tryUnlockSecond, .tryUnlock second)]
  (sets.find? (·.1.contains pc)).map (·.2)

/-- The trap of a rendezvous plan at `pc`. The point after `pc` has to be a word. -/
def TriggerSet.rendezvousTrapAt (triggers : TriggerSet) (channel : ChannelId) (pc : Nat) :
    Except Fault (Option Trap) := do
  let next ← Word.succ pc
  if triggers.contains next then return some (.rendezvousAcquire channel)
  if triggers.contains pc then return some (.rendezvousBody channel)
  if 0 < pc && triggers.contains (pc - 1) then return some (.rendezvousRelease channel)
  return none

/-- The trap that `p` raises at `pc`. A mutex user without a partner raises none. -/
def Proc.trapAt (p : Proc) (pc : Nat) (pairs : MutexPairs) : Except Fault (Option Trap) :=
  match p.plan with
  | .none => .ok none
  | .mutex program =>
    .ok ((pairs.find? p.pid).bind fun m => program.trapAt pc m.first m.second)
  | .rendezvous triggers channel => triggers.rendezvousTrapAt channel pc
  | .io devices =>
    .ok ((devices.findIdx? (·.contains pc)).map fun d => .io ⟨d⟩)

end Mlfq
