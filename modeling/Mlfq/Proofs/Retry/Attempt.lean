import Mlfq.Proofs.Retry.Listing
import Mlfq.Proofs.Retry.Rest
import Mlfq.Proofs.Run.Arithmetic

/-! # Attempts at a lock

A mutex user that is parked on a lock stands one step before the point at which it asked for it. Its
next cycle takes it there again, and again it asks for the lock: it gets the lock, or it is parked
as before. -/

namespace Mlfq

variable {σ : Type}

/-- Process `pid` is parked on the lock of the table. -/
def LockTable.Parks (t : LockTable) (id : LockId) (pid : Pid) : Prop :=
  ∃ l, t.get? id = some l ∧ pid ∈ l.waiters.map (·.pid)

theorem LockTable.parks_congr {t t' : LockTable} {id : LockId} (same : t'.get? id = t.get? id)
    (pid : Pid) : t'.Parks id pid ↔ t.Parks id pid := by
  rw [Parks, Parks, same]

/-- A process that asks for a lock, with what decides where it does so. -/
structure Attempt where
  pid : Pid
  id : LockId
  /-- The point at which the process asks for the lock. -/
  pc : Nat
  maxPc : Nat
  program : MutexProgram
  mem : PairMember
  asks : program.trapAt pc mem.first mem.second = some (.lock id)
  word : pc ≤ Word.max
  le : pc ≤ maxPc
  /-- From one step before the point the process comes to the point. -/
  back : 0 < pc ∨ maxPc = 0

namespace Attempt

variable {a : Attempt} {p p' : Proc}

/-- The process runs the program and has this largest counter. -/
structure Describes (a : Attempt) (p : Proc) : Prop where
  pid : p.pid = a.pid
  plan : p.plan = .mutex a.program
  maxPc : p.maxPc = a.maxPc

/-- The process stands one step before the point. -/
structure Fits (a : Attempt) (p : Proc) : Prop extends a.Describes p where
  pc : p.pc = a.pc - 1

theorem Describes.of_profile_eq (h : a.Describes p) (same : p'.profile = p.profile) :
    a.Describes p' := by
  have pid : p'.pid = p.pid := congrArg (·.pid) same
  have plan : p'.plan = p.plan := congrArg (·.plan) same
  have maxPc : p'.maxPc = p.maxPc := congrArg (·.maxPc) same
  exact ⟨pid.trans h.pid, plan.trans h.plan, maxPc.trans h.maxPc⟩

theorem Fits.pc_eq_of_advances (h : a.Fits p) (advances : p.Advances p') : p'.pc = a.pc := by
  have pc := h.pc
  have maxPc := h.maxPc
  have le := a.le
  cases advances with
  | step below =>
    show p.pc + 1 = a.pc
    rcases a.back with pos | only <;> omega
  | wrap above =>
    show 0 = a.pc
    omega

theorem Fits.lt_max (h : a.Fits p) : p.pc < Word.max := by
  have word := a.word
  have pc := h.pc
  rcases Nat.eq_zero_or_pos a.pc with zero | pos
  · rw [pc, zero]
    decide
  · omega

/-- The lock is one of the two of the member. -/
theorem exists_lock (a : Attempt) : ∃ which, a.id = a.mem.lock which := by
  obtain ⟨action, which, same, -⟩ := MutexProgram.exists_action a.asks
  refine ⟨which, ?_⟩
  cases action with
  | lock => exact Trap.lock.inj same
  | unlock | tryLock | tryUnlock => cases same

end Attempt

namespace Machine

variable {m m' : Machine σ} {p q : Proc} {id : LockId}

/-- A step is made from a word. -/
theorem lt_max_of_advance (running : m.running = some p) (h : m.advance = .ok m') :
    m.cpuPc < Word.max := by
  unfold advance at h
  rw [running] at h
  obtain ⟨pc, next, -⟩ := exists_of_bind_eq_ok h
  exact (Word.succ_eq_ok_iff.1 (eq_of_attempt next)).1

/-- The record of the process when it raises a trap. -/
theorem Raises.exists_current {t : Trap} (h : m.Raises p t m') : ∃ q, m'.running = some q ∧
    (m.current p).Advances (m'.current q) ∧ q.trapAt m'.cpuPc m.pairs = .ok (some t) := by
  obtain ⟨running, m₁, advance, rfl, trap⟩ := h
  obtain ⟨q, pc, rfl, advances⟩ := Scene.exists_of_advance (m := m.beginCycle) running advance
  obtain ⟨sinceScan, monitor, journal, scan⟩ := Scene.scanIfDue_eq
    ({ m.beginCycle with running := some q, cpuPc := pc } : Machine σ)
  rw [scan] at trap ⊢
  exact ⟨q, rfl, advances, eq_of_attempt trap⟩

/-- A cycle in which a trap is raised. -/
theorem Raises.stepRunning_eq {t : Trap} (h : m.Raises p t m') :
    m.stepRunning = .ok (m'.handleTrap t) := by
  obtain ⟨-, m₁, advance, rfl, trap⟩ := h
  simp only [stepRunning, advance, bind, Except.bind, trap]
  rfl

/-- A free lock, or one of its own, is given to the process that asks for it. -/
theorem lock_open (running : m.running = some p) {l : Lock} (found : m.locks.get? id = some l)
    (free : l.holder = none ∨ l.holder = some p.pid) :
    m.lock id = (false, emit { m with
      running := some { p with pc := m.cpuPc - 1 }
      locks := m.locks.set { l with holder := some p.pid } } (.lockAcquired p.pid id)) := by
  unfold lock
  rw [running]
  simp only [found, Lock.acquire_open (p := { p with pc := m.cpuPc - 1 }) free]

/-- A process that asks for a lock of somebody else is parked one step before the point. -/
theorem lock_taken (running : m.running = some p) {l : Lock} (found : m.locks.get? id = some l)
    {x : Pid} (held : l.holder = some x) (other : x ≠ p.pid) :
    m.lock id = (true, emit { m with
      running := none
      locks := m.locks.set { l with
        waiters := l.waiters.enqueue { p with pc := m.cpuPc - 1, state := .blocked } } }
      (.lockBlocked p.pid id l.holder)) := by
  unfold lock
  rw [running]
  simp only [found, Lock.acquire_taken (p := { p with pc := m.cpuPc - 1 }) held other]

/-- A process that asks for a lock of the table gets it or is parked. -/
theorem handleTrap_lock_cases (tidy : m.locks.Tidy) (running : m.running = some p) {l : Lock}
    (found : m.locks.get? id = some l) :
    ((m.handleTrap (.lock id)).1 = none ∧ (m.handleTrap (.lock id)).2.locks.HeldBy id p.pid) ∨
      ((m.handleTrap (.lock id)).1 = some .lockTrap ∧
        ∃ l', (m.handleTrap (.lock id)).2.locks.get? id = some l' ∧
          { p with pc := m.cpuPc - 1, state := .blocked } ∈ l'.waiters) := by
  let counted := m.measure fun c => { c with traps := c.traps.increment (Trap.lock id).label }
  let taken : Lock := { l with holder := some p.pid }
  let parked : Proc := { p with pc := m.cpuPc - 1, state := .blocked }
  let awaited : Lock := { l with waiters := l.waiters.enqueue parked }
  simp only [handleTrap]
  rcases l.open_or_taken p.pid with free | ⟨x, held, other⟩
  · rw [lock_open (m := counted) running found free]
    have same : taken.id = l.id := rfl
    exact .inl ⟨rfl, (tidy.heldBy_set found same).2 rfl⟩
  · rw [lock_taken (m := counted) running found held other]
    have same : awaited.id = l.id := rfl
    have there := tidy.get?_set found same id
    rw [if_pos rfl] at there
    exact .inr ⟨rfl, awaited, there, Queue.mem_enqueue.2 (.inr rfl)⟩

end Machine
end Mlfq
