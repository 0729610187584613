import Mlfq.Proofs.Scene.Service

/-! # What locks keep

Two facts about a lock that no service breaks: nobody is parked on a free lock or on a lock of its
own, and a lock is only concerned with the processes that use it. -/

namespace Mlfq.Lock

/-- Who is parked waits for somebody else. -/
def Sound (l : Lock) : Prop :=
  l.waiters ≠ [] → ∃ h, l.holder = some h ∧ ∀ w ∈ l.waiters, w.pid ≠ h

/-- The holder and everybody parked are among these processes. -/
structure Within (l : Lock) (pids : List Pid) : Prop where
  holder : ∀ h, l.holder = some h → h ∈ pids
  waiters : ∀ w ∈ l.waiters, w.pid ∈ pids

variable {p : Proc} {r : Request} {l l' : Lock} {out : Multiset Proc} {pids : List Pid}

theorem sound_of_waiters_nil (h : l.waiters = []) : l.Sound := fun parked => absurd h parked

theorem sound_new (id : LockId) : Sound { id } := sound_of_waiters_nil rfl

theorem within_new (id : LockId) (pids : List Pid) : Within { id } pids := by
  constructor
  · intro h held
    cases held
  · intro w parked
    cases parked

/-- On a free lock nobody is parked. -/
theorem Sound.waiters_eq_nil (h : l.Sound) (free : l.holder = none) : l.waiters = [] := by
  by_contra parked
  obtain ⟨x, held, -⟩ := h parked
  rw [free] at held
  cases held

/-- The holder of a lock on which a process is parked. -/
theorem Sound.exists_holder (h : l.Sound) {w : Proc} (parked : w ∈ l.waiters) :
    ∃ x, l.holder = some x ∧ x ≠ w.pid := by
  obtain ⟨x, held, others⟩ := h (List.ne_nil_of_mem parked)
  exact ⟨x, held, (others w parked).symm⟩

theorem Sound.waiters_freed (h : l.Sound) : l.freed.waiters = [] := by
  unfold freed
  cases held : l.holder with
  | none => exact h.waiters_eq_nil held
  | some x => rfl

theorem Sound.take (h : l.Sound) {pid : Pid} (free : l.holder = none ∨ l.holder = some pid) :
    Sound { l with holder := some pid } := by
  rcases free with free | own
  · exact sound_of_waiters_nil (h.waiters_eq_nil free)
  · rw [← own]
    exact h

theorem Sound.park (h : l.Sound) {q : Proc} {x : Pid} (held : l.holder = some x)
    (other : x ≠ q.pid) : Sound { l with waiters := l.waiters.enqueue q } := by
  intro _
  refine ⟨x, held, fun w parked => ?_⟩
  rcases Queue.mem_enqueue.1 parked with parked | rfl
  · obtain ⟨y, held', others⟩ := h (List.ne_nil_of_mem parked)
    rw [held] at held'
    cases held'
    exact others w parked
  · exact other.symm

theorem Serves.sound (serves : Serves p r l l' out) (h : l.Sound) : l'.Sound := by
  cases serves with
  | take hr free => exact h.take free
  | @park l x q held other core =>
    have same : q.pid = p.pid := (Proc.pid_eq_of_core_eq core).trans rfl
    exact h.park held (same ▸ other)
  | fail => exact h
  | release => exact sound_of_waiters_nil h.waiters_freed

/-- Who is parked was there before, or has just been refused and resumes one step back. -/
theorem Serves.mem_waiters (serves : Serves p r l l' out) {w : Proc} (parked : w ∈ l'.waiters) :
    w ∈ l.waiters ∨ r = .acquire ∧ w.core = { p with pc := p.pc - 1 } := by
  cases serves with
  | take | fail => exact .inl parked
  | park held other core =>
    rcases Queue.mem_enqueue.1 parked with old | rfl
    · exact .inl old
    · exact .inr ⟨rfl, core⟩
  | release =>
    left
    rw [← l.waiters_freed_append]
    exact List.mem_append_left _ parked

/-- Who holds the lock is another process that held it before, or has just asked for it. -/
theorem Serves.holder_cases (serves : Serves p r l l' out) {x : Pid} (held : l'.holder = some x) :
    x ≠ p.pid ∧ l.holder = some x ∨ x = p.pid ∧ r ≠ .release := by
  cases serves with
  | take hr =>
    cases held
    exact .inr ⟨rfl, hr⟩
  | park taken other | fail taken other =>
    rw [taken] at held
    cases held
    exact .inl ⟨other, taken⟩
  | release =>
    rw [holder_freed] at held
    cases held

theorem Serves.within (serves : Serves p r l l' out) (h : l.Within pids) (user : p.pid ∈ pids) :
    l'.Within pids := by
  constructor
  · intro x held
    rcases serves.holder_cases held with ⟨-, old⟩ | ⟨rfl, -⟩
    · exact h.holder x old
    · exact user
  · intro w parked
    rcases serves.mem_waiters parked with old | ⟨-, core⟩
    · exact h.waiters w old
    · have same : w.pid = p.pid := (Proc.pid_eq_of_core_eq core).trans rfl
      exact same ▸ user

end Mlfq.Lock
