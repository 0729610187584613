import Mlfq.Proofs.Run.Success
import Mlfq.Proofs.WorkConservation

/-! # Steps that stay in the range of words

What can fault between two checkpoints is an addition on a counter, or the request for a batch. The
additions are those of a step, of a wrap, of a look at the next point and of a finished request. -/

namespace Mlfq

variable {σ : Type}

/-- A look at the trap of a process succeeds if there is a point after that of the process. -/
theorem Proc.exists_trapAt (p : Proc) {pc : Nat} (h : pc < Word.max) (pairs : MutexPairs) :
    ∃ t, p.trapAt pc pairs = .ok t := by
  unfold trapAt
  cases p.plan with
  | none | mutex | io => exact ⟨_, rfl⟩
  | rendezvous triggers channel =>
    simp only [TriggerSet.rendezvousTrapAt, Word.succ_of_lt h, bind, Except.bind]
    split
    · exact ⟨_, rfl⟩
    · split
      · exact ⟨_, rfl⟩
      · split <;> exact ⟨_, rfl⟩

namespace Machine

variable {m m' : Machine σ} {p q : Proc}

/-! ## The record of the running process -/

/-- The counter that was saved last for the running process is at most one past its largest one. -/
def Saved (m : Machine σ) : Prop := ∀ p, m.running = some p → p.pc ≤ p.maxPc + 1

theorem Saved.of_eq (h : m.Saved) (same : m'.running = m.running) : m'.Saved := by
  rw [Saved, same]
  exact h

theorem saved_of_idle (idle : m.running = none) : m.Saved := by
  intro p running
  rw [idle] at running
  cases running

/-- A process that has got a lock goes on from before its request, if it runs again. -/
theorem exists_of_running_lock {id : LockId} (h : (m.lock id).2.running = some q) :
    ∃ p, m.running = some p ∧ (q = p ∨ q = { p with pc := m.cpuPc - 1 }) := by
  unfold lock at h
  cases running : m.running with
  | none =>
    rw [running] at h
    exact absurd (running.symm.trans h) nofun
  | some p =>
    rw [running] at h
    cases found : m.locks.get? id with
    | none =>
      rw [found] at h
      exact ⟨q, h ▸ running.symm, .inl rfl⟩
    | some l =>
      simp only [found] at h
      rcases l.open_or_taken p.pid with free | ⟨x, held, other⟩
      · rw [Lock.acquire_open (p := { p with pc := m.cpuPc - 1 }) free] at h
        exact ⟨p, rfl, .inr (Option.some.inj h).symm⟩
      · rw [Lock.acquire_taken (p := { p with pc := m.cpuPc - 1 }) held other] at h
        cases h

theorem exists_of_running_enterChannel {id : ChannelId}
    (h : (m.enterChannel id).2.running = some q) :
    ∃ p, m.running = some p ∧ (q = p ∨ q = { p with pc := m.cpuPc - 1 }) := by
  unfold enterChannel at h
  split at h
  · rename_i p c running found
    rcases c.lock.open_or_taken p.pid with free | ⟨x, held, other⟩
    · rw [Lock.acquire_open (p := { p with pc := m.cpuPc - 1 }) free] at h
      exact ⟨p, running, .inr (Option.some.inj h).symm⟩
    · rw [Lock.acquire_taken (p := { p with pc := m.cpuPc - 1 }) held other] at h
      cases h
  · exact ⟨q, h, .inl rfl⟩

theorem running_of_running_startIo {d : DeviceId} (h : (m.startIo d).2.running = some q) :
    m.running = some q := by
  unfold startIo at h
  split at h
  · cases h
  · exact h

theorem running_of_running_rendezvous {id : ChannelId}
    (h : (m.rendezvous id).2.running = some q) : m.running = some q := by
  unfold rendezvous at h
  split at h
  · split at h
    · exact h
    · rename_i role _
      split at h
      · cases h
      · cases role <;> exact h
  · exact h

/-- A process that runs on after its trap has the record that it had, or has got a lock. -/
theorem exists_of_running_handleTrap {t : Trap} (h : (m.handleTrap t).2.running = some q) :
    ∃ p, m.running = some p ∧ (q = p ∨ q = { p with pc := m.cpuPc - 1 }) := by
  let counted := m.measure fun c => { c with traps := c.traps.increment t.label }
  simp only [handleTrap] at h
  cases t with
  | lock id => exact exists_of_running_lock (m := counted) h
  | rendezvousAcquire id => exact exists_of_running_enterChannel (m := counted) h
  | unlock id | tryUnlock id => exact ⟨q, (running_unlock counted id).symm.trans h, .inl rfl⟩
  | tryLock id => exact ⟨q, (running_tryLock counted id).symm.trans h, .inl rfl⟩
  | rendezvousRelease id => exact ⟨q, (running_leaveChannel counted id).symm.trans h, .inl rfl⟩
  | io d => exact ⟨q, running_of_running_startIo (m := counted) h, .inl rfl⟩
  | rendezvousBody id => exact ⟨q, running_of_running_rendezvous (m := counted) h, .inl rfl⟩

theorem running_foldl_receive (as : List Arrival) (m : Machine σ) :
    (as.foldl receive m).running = m.running := by
  induction as generalizing m with
  | nil => rfl
  | cons a as ih =>
    obtain ⟨census, newcomers, locks, pairs, channels, nextChannel, journal, one⟩ :=
      m.exists_of_receive a
    rw [List.foldl_cons, ih, one]

theorem running_requestBatch [Workload σ] {n : Nat} (h : m.requestBatch = .ok (n, m')) :
    m'.running = m.running := by
  obtain ⟨batch, -, h⟩ := exists_of_bind_eq_ok h
  cases h
  exact running_foldl_receive batch.arrivals _

/-- A dispatched process has the counter with which it was ready. -/
theorem Saved.phase [Workload σ] {cause : Cause} {phase : Phase} (h : m.Saved)
    (ready : ∀ p ∈ m.ready.toList, p.pc ≤ p.maxPc + 1) (hp : m.phase cause phase = .ok m') :
    m'.Saved := by
  cases phase with
  | priorityReset =>
    simp only [Machine.phase] at hp
    split at hp
    · obtain ⟨⟨n, m₁⟩, request, hp⟩ := exists_of_bind_eq_ok hp
      cases hp
      intro q running
      have raised := (running_requestBatch request).symm.trans running
      obtain ⟨p, before, rfl⟩ := Option.map_eq_some_iff.1 raised
      exact h p before
    · cases hp
      exact h
  | admission =>
    cases hp
    exact h
  | preemption =>
    cases hp
    split
    · unfold preempt
      cases running : m.running with
      | none => exact saved_of_idle running
      | some p => exact saved_of_idle rfl
    · exact h
  | dispatching =>
    cases hp
    split
    · unfold dispatch
      cases taken : m.ready.dequeue with
      | none => exact h
      | some next =>
        obtain ⟨p, rest⟩ := next
        have first := ready p (ReadyQueue.toList_of_dequeue taken ▸ List.mem_cons_self)
        rintro q ⟨⟩
        exact first
    · exact h
  | reaping =>
    cases hp
    split
    · exact h.of_eq (congrArg Prod.fst (front_reap m))
    · exact h

/-! ## What does not fault -/

/-- A step succeeds if there is a next point, and a next wrap where it is one. -/
theorem exists_advance (running : m.running = some p) (pc : m.cpuPc < Word.max)
    (wraps : m.cpuPc < p.maxPc ∨ p.wraps < Word.max) : ∃ wraps pc, pc ≤ p.maxPc ∧
      m.advance = .ok { m with running := some { p with wraps }, cpuPc := pc } := by
  unfold advance
  rw [running]
  simp only [Word.succ_of_lt pc, attempt, bind, Except.bind]
  split
  case isTrue below => exact ⟨p.wraps, m.cpuPc + 1, below, by rw [← running]; rfl⟩
  case isFalse above =>
    rw [Word.succ_of_lt (wraps.resolve_left above)]
    exact ⟨p.wraps + 1, 0, Nat.zero_le _, rfl⟩

/-- The running process gets through its part of a cycle if its counters are in range. -/
theorem succeeds_stepRunning (running : m.running = some p) (pc : m.cpuPc < Word.max)
    (wraps : p.wraps < Word.max) (maxPc : p.maxPc < Word.max) (saved : m.Saved) :
    Succeeds (Saved ·.2) m.stepRunning := by
  obtain ⟨wraps, pc, below, advance⟩ :=
    exists_advance (m := m.beginCycle) running pc (.inr wraps)
  let stepped : Machine σ := { m.beginCycle with running := some { p with wraps }, cpuPc := pc }
  obtain ⟨running', cpuPc, -, -⟩ := Scene.scanIfDue_spec stepped p [] []
  obtain ⟨t, trap⟩ := Proc.exists_trapAt { p with wraps } (below.trans_lt maxPc)
    stepped.scanIfDue.pairs
  have pending : stepped.scanIfDue.pendingTrap = .ok t := by
    rw [pendingTrap, running', cpuPc]
    simp only [stepped, trap]
    rfl
  have own : p.pc ≤ p.maxPc + 1 := saved p running
  have first : stepped.scanIfDue.Saved := by
    rw [Saved, running']
    rintro q ⟨⟩
    exact own
  cases t with
  | none =>
    refine ⟨(none, stepped.scanIfDue), ?_, first⟩
    simp only [stepRunning, advance, bind, Except.bind, stepped, pending]
    rfl
  | some t =>
    refine ⟨stepped.scanIfDue.handleTrap t, ?_, fun q hq => ?_⟩
    · simp only [stepRunning, advance, bind, Except.bind, stepped, pending]
      rfl
    · obtain ⟨r, hr, rfl | rfl⟩ := exists_of_running_handleTrap hq
      · exact first q hr
      · rw [running'] at hr
        cases hr
        rw [cpuPc]
        show pc - 1 ≤ p.maxPc + 1
        omega

/-- A request is finished if there is a point after it. -/
theorem exists_completeIo {device : DeviceId}
    (h : ∀ d, m.devices[device.num]? = some d → ∀ p ∈ d.queue, p.pc < Word.max) :
    ∃ done, m.completeIo device = .ok done := by
  unfold completeIo
  cases found : m.devices[device.num]? with
  | none => exact ⟨none, rfl⟩
  | some d =>
    cases queue : d.queue with
    | nil => exact ⟨none, by simp only [queue, Queue.dequeue]⟩
    | cons p rest =>
      have next := Word.succ_of_lt (h d found p (queue ▸ List.mem_cons_self))
      simp only [queue, Queue.dequeue, next, attempt, bind, Except.bind]
      exact ⟨_, rfl⟩

section

variable [Workload σ]
  (answered : ∃ batch, Workload.batch m.workload m.pids m.census = .ok batch)

include answered

theorem exists_requestBatch : ∃ done, m.requestBatch = .ok done := by
  obtain ⟨batch, answer⟩ := answered
  simp only [requestBatch, answer, attempt, bind, Except.bind]
  exact ⟨_, rfl⟩

theorem exists_boot : ∃ m', m.boot = .ok m' := by
  obtain ⟨done, request⟩ := exists_requestBatch answered
  simp only [boot, request, bind, Except.bind]
  exact ⟨_, rfl⟩

/-- A phase faults only if its request for a batch does. -/
theorem exists_phase (cause : Cause) (phase : Phase) : ∃ m', m.phase cause phase = .ok m' := by
  cases phase with
  | priorityReset =>
    simp only [Machine.phase]
    split
    · let raised : Machine σ := { m with
        ready := m.ready.resetPriorities
        running := m.running.map fun (p : Proc) => { p with priority := .highest }
        sinceReset := 0 }
      obtain ⟨done, request⟩ := exists_requestBatch (m := raised) answered
      simp only [resetPriorities, raised] at request ⊢
      simp only [request, bind, Except.bind]
      exact ⟨_, rfl⟩
    · exact ⟨m, rfl⟩
  | admission | preemption | dispatching | reaping => exact ⟨_, rfl⟩

end

end Machine
end Mlfq
