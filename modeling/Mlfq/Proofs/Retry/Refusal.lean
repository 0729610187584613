import Mlfq.Proofs.Retry.Attempt
import Mlfq.Proofs.Story.Topics

/-! # What the trace tells of a refused lock

A mutex user is parked on a lock exactly where the trace tells so. Of all that can happen in a run
only a request for a lock tells of a process that is parked on one, and of the traps of a mutex
program only the one that does park it. -/

namespace Mlfq

/-- Whether an event tells that a process was parked on a lock. -/
def Event.isRefusal : Event → Bool
  | .lockBlocked .. => true
  | _ => false

theorem Event.isRefusal_eq_false {e : Event} (h : e.topic ≠ .lock) : e.isRefusal = false := by
  cases e <;> first | rfl | exact absurd rfl h

variable {σ : Type}

namespace Machine

variable {m m' : Machine σ} {p : Proc} {id : LockId}

/-- What tells nothing of a lock does not tell of a refused one. -/
theorem Tells.grows_of_no_lock {topics : List Event.Topic} (h : Tells topics m m')
    (other : .lock ∉ topics) : m.journal.Grows (·.isRefusal = false) m'.journal :=
  h.journal.mono fun _ mem => Event.isRefusal_eq_false fun lock => other (lock ▸ mem)

theorem unlock_tells_no_refusal (m : Machine σ) (id : LockId) :
    m.journal.Grows (·.isRefusal = false) (m.unlock id).journal := by
  unfold unlock
  split
  · split
    · exact .event (P := (·.isRefusal = false)) (.refl _) rfl _
    · dsimp only
      split
      · exact .event (P := (·.isRefusal = false)) (.refl _) rfl _
      · exact .refl _
  · exact .refl _

theorem tryLock_tells_no_refusal (m : Machine σ) (id : LockId) :
    m.journal.Grows (·.isRefusal = false) (m.tryLock id).journal := by
  unfold tryLock
  split
  · exact .event (P := (·.isRefusal = false)) (.refl _) rfl _
  · exact .refl _

/-- Who asks for a lock is parked, and this is told; or it goes on. -/
theorem lock_refuses_or_grows (running : m.running = some p) (id : LockId) :
    ((m.lock id).1 = true ∧ ∃ holder,
      (m.lock id).2.journal = m.journal.event m.iteration (.lockBlocked p.pid id holder)) ∨
      (m.lock id).1 = false ∧ m.journal.Grows (·.isRefusal = false) (m.lock id).2.journal := by
  cases found : m.locks.get? id with
  | none =>
    unfold lock
    rw [running]
    simp only [found]
    exact .inr ⟨trivial, .log (.refl _) _⟩
  | some l =>
    rcases l.open_or_taken p.pid with free | ⟨x, held, other⟩
    · rw [lock_open running found free]
      exact .inr ⟨rfl, .event (P := (·.isRefusal = false)) (.refl _) rfl _⟩
    · rw [lock_taken running found held other]
      exact .inl ⟨rfl, l.holder, rfl⟩

/-- A mutex user whose trap is handled asks for a lock and is parked, and this is told; or it goes
on, and no refusal is told. -/
theorem handleTrap_refuses_or_grows (running : m.running = some p)
    (action : MutexProgram.Action) (id : LockId) :
    (action = .lock ∧ (m.handleTrap (.lock id)).1 = some .lockTrap ∧
      (m.journal.tracing = true → ∃ holder,
        (m.handleTrap (.lock id)).2.events = m.events ++ [.lockBlocked p.pid id holder])) ∨
      (m.handleTrap (action.trap id)).1 = none ∧
        m.journal.Grows (·.isRefusal = false) (m.handleTrap (action.trap id)).2.journal := by
  let counted := m.measure fun c => { c with traps := c.traps.increment (action.trap id).label }
  cases action with
  | lock =>
    simp only [handleTrap, MutexProgram.Action.trap]
    rcases lock_refuses_or_grows (m := counted) running id with
      ⟨parked, holder, journal⟩ | ⟨goesOn, grows⟩
    · refine .inl ⟨trivial, if_pos parked, fun tracing => ⟨holder, ?_⟩⟩
      exact (congrArg (·.trace.events) journal).trans (events_emit (m := counted) tracing _)
    · exact .inr ⟨if_neg (Bool.eq_false_iff.1 goesOn), grows⟩
  | unlock | tryUnlock => exact .inr ⟨rfl, unlock_tells_no_refusal counted id⟩
  | tryLock => exact .inr ⟨rfl, tryLock_tells_no_refusal counted id⟩

/-- The trap of a mutex user is an action on a lock. -/
theorem Raises.exists_action {t : Trap} (h : m.Raises p t m') {program : MutexProgram}
    (plan : p.plan = .mutex program) : ∃ (action : MutexProgram.Action) (id : LockId),
      t = action.trap id := by
  obtain ⟨q, -, advances, trap⟩ := h.exists_current
  have runs : q.plan = .mutex program := advances.plan_eq.trans plan
  rcases Proc.trapAt_cases trap with
    ⟨_, _, mem, -, -, -, asks⟩ | ⟨_, _, other, -⟩ | ⟨_, _, other, -⟩
  · obtain ⟨action, which, same, -⟩ := MutexProgram.exists_action asks
    exact ⟨action, mem.lock which, same⟩
  · rw [runs] at other
    cases other
  · rw [runs] at other
    cases other

end Machine

namespace Moment

variable {mo mo' : Moment σ}

/-- What is told between two moments has the property of all that is added to the trace. -/
theorem of_mem_told {P : Event → Prop}
    (grows : mo.ledger.machine.journal.Grows P mo'.ledger.machine.journal) {e : Event}
    (he : e ∈ mo.told mo') : P e := by
  obtain ⟨-, es, all, events⟩ := grows
  exact all e (told_eq events ▸ he)

/-- Only a process that raises a trap can tell of a refused lock. -/
theorem Next.raises_of_refusal [Workload σ] (next : Next mo mo') {e : Event} (he : e ∈ mo.told mo')
    (refusal : e.isRefusal = true) : ∃ p t m, mo.ledger.machine.Raises p t m ∧
      mo'.ledger.machine = (m.handleTrap t).2 := by
  rcases next.tells_or_serves with tells | raises | ⟨d, done⟩
  · rw [of_mem_told (tells.grows_of_no_lock (by decide)) he] at refusal
    cases refusal
  · exact raises
  · have tells := Machine.tells_completeIo done
    rw [of_mem_told (tells.grows_of_no_lock (by decide)) he] at refusal
    cases refusal

end Moment
end Mlfq
