import Mlfq.Proofs.Scene.Simulation

/-! # What an operation can touch

Every operation of the machine changes some of its fields and leaves all the others as they are.
The configuration never changes, and only the beginning of a cycle and a priority reset touch what
counts cycles and resets. -/

namespace Mlfq

variable {σ : Type}

namespace Machine

/-- The configuration, the cycles since the last priority reset, the cycles and the resets. -/
def clock (m : Machine σ) : Config × Nat × Nat × Nat :=
  (m.config, m.sinceReset, m.iteration, m.priorityResets)

theorem of_clock {m : Machine σ} {config : Config} {sinceReset iteration priorityResets : Nat}
    (h : m.clock = (config, sinceReset, iteration, priorityResets)) : m.config = config ∧
      m.sinceReset = sinceReset ∧ m.iteration = iteration ∧ m.priorityResets = priorityResets := by
  cases h
  exact ⟨rfl, rfl, rfl, rfl⟩

variable {m m' m'' : Machine σ}

/-! ## Traps -/

/-- The second machine is the first but for who runs, who is ready and who waits, and for what is
written down. -/
def Reseats (m m' : Machine σ) : Prop := ∃ running ready devices locks channels gen journal,
  m' = { m with running, ready, devices, locks, channels, gen, journal }

theorem Reseats.refl (m : Machine σ) : m.Reseats m := ⟨_, _, _, _, _, _, _, rfl⟩

theorem Reseats.clock_eq (h : m.Reseats m') : m'.clock = m.clock := by
  obtain ⟨running, ready, devices, locks, channels, gen, journal, rfl⟩ := h
  rfl

theorem reseats_startIo (m : Machine σ) (d : DeviceId) : m.Reseats (m.startIo d).2 := by
  unfold startIo
  split
  · exact ⟨_, _, _, _, _, _, _, rfl⟩
  · exact .refl m

theorem reseats_lock (m : Machine σ) (id : LockId) : m.Reseats (m.lock id).2 := by
  unfold lock
  split
  · exact .refl m
  · split
    · exact ⟨_, _, _, _, _, _, _, rfl⟩
    · split <;> exact ⟨_, _, _, _, _, _, _, rfl⟩

theorem reseats_unlock (m : Machine σ) (id : LockId) : m.Reseats (m.unlock id) := by
  unfold unlock
  split
  · split
    · exact ⟨_, _, _, _, _, _, _, rfl⟩
    · dsimp only
      split <;> exact ⟨_, _, _, _, _, _, _, rfl⟩
  · exact .refl m

theorem reseats_tryLock (m : Machine σ) (id : LockId) : m.Reseats (m.tryLock id) := by
  unfold tryLock
  split
  · exact ⟨_, _, _, _, _, _, _, rfl⟩
  · exact .refl m

theorem reseats_enterChannel (m : Machine σ) (id : ChannelId) :
    m.Reseats (m.enterChannel id).2 := by
  unfold enterChannel
  split
  · split <;> exact ⟨_, _, _, _, _, _, _, rfl⟩
  · exact .refl m

theorem reseats_leaveChannel (m : Machine σ) (id : ChannelId) : m.Reseats (m.leaveChannel id) := by
  unfold leaveChannel
  split
  · dsimp only
    split <;> exact ⟨_, _, _, _, _, _, _, rfl⟩
  · exact .refl m

theorem reseats_rendezvous (m : Machine σ) (id : ChannelId) : m.Reseats (m.rendezvous id).2 := by
  unfold rendezvous
  split
  · split
    · exact .refl m
    · rename_i role _
      split
      · exact ⟨_, _, _, _, _, _, _, rfl⟩
      · cases role <;> exact ⟨_, _, _, _, _, _, _, rfl⟩
  · exact .refl m

theorem reseats_handleTrap (m : Machine σ) (t : Trap) : m.Reseats (m.handleTrap t).2 := by
  let counted := m.measure fun c => { c with traps := c.traps.increment t.label }
  have same : ∀ {m'}, counted.Reseats m' → m.Reseats m' := by
    rintro m' ⟨running, ready, devices, locks, channels, gen, journal, rfl⟩
    exact ⟨running, ready, devices, locks, channels, gen, journal, rfl⟩
  simp only [handleTrap]
  cases t with
  | io d => exact same (counted.reseats_startIo d)
  | lock id => exact same (counted.reseats_lock id)
  | unlock id | tryUnlock id => exact same (counted.reseats_unlock id)
  | tryLock id => exact same (counted.reseats_tryLock id)
  | rendezvousAcquire id => exact same (counted.reseats_enterChannel id)
  | rendezvousBody id => exact same (counted.reseats_rendezvous id)
  | rendezvousRelease id => exact same (counted.reseats_leaveChannel id)

/-! ## The dispatcher -/

/-- An arrival is written down and gets its locks and channels. -/
theorem exists_of_receive (m : Machine σ) (a : Arrival) :
    ∃ census newcomers locks pairs channels nextChannel journal, m.receive a =
      { m with census, newcomers, locks, pairs, channels, nextChannel, journal } := by
  cases a with
  | single | mutexPair | rendezvousPair =>
    simp only [receive, admitProc, emit]
    exact ⟨_, _, _, _, _, _, _, rfl⟩

theorem clock_foldl_receive (as : List Arrival) (m : Machine σ) :
    (as.foldl receive m).clock = m.clock := by
  induction as generalizing m with
  | nil => rfl
  | cons a as ih =>
    obtain ⟨census, newcomers, locks, pairs, channels, nextChannel, journal, one⟩ :=
      m.exists_of_receive a
    rw [List.foldl_cons, ih, one]
    rfl

theorem clock_requestBatch [Workload σ] {n : Nat} (h : m.requestBatch = .ok (n, m')) :
    m'.clock = m.clock := by
  obtain ⟨batch, -, h⟩ := exists_of_bind_eq_ok h
  cases h
  exact clock_foldl_receive batch.arrivals _

/-- A priority reset that succeeds is counted, and the count of cycles starts again. -/
theorem clock_resetPriorities [Workload σ] (h : m.resetPriorities = .ok m') :
    m'.clock = (m.config, 0, m.iteration, m.priorityResets + 1) := by
  obtain ⟨⟨n, m₁⟩, request, h⟩ := exists_of_bind_eq_ok h
  have same := clock_requestBatch request
  cases h
  simp only [clock, Prod.mk.injEq] at same ⊢
  obtain ⟨config, sinceReset, iteration, priorityResets⟩ := same
  exact ⟨config, sinceReset, iteration, congrArg (· + 1) priorityResets⟩

theorem exists_of_preempt (m : Machine σ) : ∃ running ready quantumExpiries journal,
    m.preempt = { m with running, ready, quantumExpiries, journal } := by
  unfold preempt
  split
  · exact ⟨_, _, _, _, rfl⟩
  · exact ⟨_, _, _, _, rfl⟩

theorem exists_of_dispatch (m : Machine σ) :
    ∃ running cpuPc ready sinceScan dispatches journal,
      m.dispatch = { m with running, cpuPc, ready, sinceScan, dispatches, journal } := by
  unfold dispatch
  split
  · exact ⟨_, _, _, _, _, _, rfl⟩
  · exact ⟨_, _, _, _, _, _, rfl⟩

/-- The second machine is the first but for who is ready and for what processes share. -/
def Retires (m m' : Machine σ) : Prop :=
  ∃ ready locks pairs channels, m' = { m with ready, locks, pairs, channels }

theorem Retires.refl (m : Machine σ) : m.Retires m := ⟨_, _, _, _, rfl⟩

theorem Retires.trans (h : m.Retires m') (h' : m'.Retires m'') : m.Retires m'' := by
  obtain ⟨ready, locks, pairs, channels, rfl⟩ := h
  obtain ⟨ready', locks', pairs', channels', rfl⟩ := h'
  exact ⟨ready', locks', pairs', channels', rfl⟩

theorem retires_dropLock (m : Machine σ) (id : LockId) : m.Retires (m.dropLock id) := by
  unfold dropLock
  split
  · exact .refl m
  · exact ⟨_, _, _, _, rfl⟩

theorem retires_retireFromPair (m : Machine σ) (pid : Pid) : m.Retires (m.retireFromPair pid) := by
  unfold retireFromPair
  rcases MutexPairs.retire pid m.pairs.pairs with ⟨- | ⟨a, b⟩, pairs⟩
  · exact ⟨_, _, _, _, rfl⟩
  · have unpaired : m.Retires { m with pairs := ⟨pairs⟩ } := ⟨_, _, _, _, rfl⟩
    exact unpaired.trans ((retires_dropLock _ a).trans (retires_dropLock _ b))

theorem retires_retireFromChannel (m : Machine σ) (p : Proc) :
    m.Retires (m.retireFromChannel p) := by
  unfold retireFromChannel
  split
  · exact .refl m
  · split
    · exact .refl m
    · dsimp only
      split <;> exact ⟨_, _, _, _, rfl⟩

theorem retires_foldl_reapOne (ps : Queue) (m : Machine σ) : m.Retires (ps.foldl reapOne m) := by
  induction ps generalizing m with
  | nil => exact .refl m
  | cons p ps ih =>
    have one : m.Retires (m.reapOne p) :=
      (retires_retireFromPair m p.pid).trans (retires_retireFromChannel _ p)
    exact one.trans (ih _)

/-- No ended process is left, and their end is written down. -/
theorem exists_of_reap (m : Machine σ) : ∃ ready locks pairs channels journal,
    m.reap = { m with zombies := [], ready, locks, pairs, channels, journal } := by
  obtain ⟨ready, locks, pairs, channels, reaped⟩ :=
    retires_foldl_reapOne m.zombies { m with zombies := [] }
  simp only [reap, reaped]
  exact ⟨ready, locks, pairs, channels, _, rfl⟩

/-! ## Cycles -/

/-- The step of the running process counts a cycle. -/
theorem clock_stepRunning {p : Proc} {cause : Option Cause} (running : m.running = some p)
    (h : m.stepRunning = .ok (cause, m')) :
    m'.clock = (m.config, m.sinceReset + 1, m.iteration + 1, m.priorityResets) := by
  have scanned : ∀ {m₁}, m.beginCycle.advance = .ok m₁ →
      m₁.scanIfDue.clock = m.beginCycle.clock := by
    intro m₁ advance
    obtain ⟨q, pc, rfl, -⟩ := Scene.exists_of_advance (m := m.beginCycle) running advance
    obtain ⟨sinceScan, monitor, journal, scan⟩ :=
      Scene.scanIfDue_eq { m.beginCycle with running := some q, cpuPc := pc }
    rw [scan]
    rfl
  rcases exists_raises_of_stepRunning running h with
    ⟨m₁, advance, rfl, -⟩ | ⟨t, m₁, ⟨-, m₂, advance, rfl, -⟩, handled⟩
  · exact scanned advance
  · obtain rfl := congrArg Prod.snd handled
    exact (reseats_handleTrap _ t).clock_eq.trans (scanned advance)

end Machine
end Mlfq
