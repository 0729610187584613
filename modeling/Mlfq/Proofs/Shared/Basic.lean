import Mlfq.Proofs.Scene.Population
import Mlfq.Proofs.Scene.Simulation

/-! # What processes share

Mutex pairs, locks and channels change in three ways: processes arrive, ended processes are dropped,
and a trap of the running process is handled. The last changes nothing but the lock or the channel
that the trap is about. `Moment.Next.turn` says this once for all that can happen in a run. -/

namespace Mlfq

theorem Registry.get?_set_of_ne {κ α : Type} [DecidableEq κ] {r : Registry κ α} {k l : κ}
    (other : l ≠ k) (a : α) : (r.set k a).get? l = r.get? l := by
  obtain ⟨es⟩ := r
  simp only [get?, set]
  induction es with
  | nil => rfl
  | cons e es ih =>
    rw [List.map_cons, lookup_cons, lookup_cons, ih]
    by_cases here : e.1 = k
    · rw [if_pos here, if_neg other, if_neg (here ▸ other)]
    · rw [if_neg here]

variable {σ : Type}

namespace Machine

/-- The mutex pairs, the locks and the channels, and the counter of cycles beside them. -/
def shared (m : Machine σ) :
    MutexPairs × LockTable × Registry ChannelId Channel × Nat × Nat :=
  (m.pairs, m.locks, m.channels, m.nextChannel, m.iteration)

/-- Of what processes share, nothing changes but the lock and the channel that the trap `t` is
about, if there is one. -/
structure Confines (t : Option Trap) (m m' : Machine σ) : Prop where
  pairs : m'.pairs = m.pairs
  nextId : m'.locks.nextId = m.locks.nextId
  locks : ∀ id, (∀ t' ∈ t, ∀ r, t'.tableRequest? ≠ some (id, r)) →
    m'.locks.get? id = m.locks.get? id
  nextChannel : m'.nextChannel = m.nextChannel
  channels : ∀ id, (∀ t' ∈ t, t'.channel? ≠ some id) → m'.channels.get? id = m.channels.get? id
  iteration : m'.iteration = m.iteration

variable {m m' m'' : Machine σ} {t : Trap}

namespace Confines

theorem of_shared_eq (h : m'.shared = m.shared) (t : Option Trap) : Confines t m m' := by
  simp only [shared, Prod.mk.injEq] at h
  obtain ⟨pairs, locks, channels, nextChannel, iteration⟩ := h
  exact ⟨pairs, congrArg _ locks, fun _ _ => locks ▸ rfl, nextChannel, fun _ _ => channels ▸ rfl,
    iteration⟩

theorem refl (t : Option Trap) (m : Machine σ) : Confines t m m := .of_shared_eq rfl t

theorem trans {t : Option Trap} (h : Confines t m m') (h' : Confines t m' m'') :
    Confines t m m'' where
  pairs := h'.pairs.trans h.pairs
  nextId := h'.nextId.trans h.nextId
  locks id other := (h'.locks id other).trans (h.locks id other)
  nextChannel := h'.nextChannel.trans h.nextChannel
  channels id other := (h'.channels id other).trans (h.channels id other)
  iteration := h'.iteration.trans h.iteration

/-- The lock that a trap asks for is set. -/
theorem of_setLock {id : LockId} {r : Lock.Request} {l l' : Lock} (tidy : m.locks.Tidy)
    (request : t.tableRequest? = some (id, r)) (found : m.locks.get? id = some l)
    (same : l'.id = l.id) (after : m'.shared = { m with locks := m.locks.set l' }.shared) :
    Confines (some t) m m' := by
  refine .trans ?_ (.of_shared_eq after _)
  refine ⟨rfl, rfl, fun k other => ?_, rfl, fun _ _ => rfl, rfl⟩
  have ne : k ≠ l'.id := by
    rintro rfl
    rw [same, tidy.id_eq id l found] at other
    exact other t rfl r request
  exact Registry.get?_set_of_ne ne l'

/-- The channel that a trap is about is set. -/
theorem of_setChannel {id : ChannelId} {c : Channel} (request : t.channel? = some id)
    (after : m'.shared = { m with channels := m.channels.set id c }.shared) :
    Confines (some t) m m' := by
  refine .trans ?_ (.of_shared_eq after _)
  refine ⟨rfl, rfl, fun _ _ => rfl, rfl, fun k other => ?_, rfl⟩
  have ne : k ≠ id := by
    rintro rfl
    exact other t rfl request
  exact Registry.get?_set_of_ne ne c

end Confines

/-! ## Traps -/

theorem shared_startIo (m : Machine σ) (d : DeviceId) : (m.startIo d).2.shared = m.shared := by
  unfold startIo
  split <;> rfl

theorem confines_lock (tidy : m.locks.Tidy) (id : LockId) :
    Confines (some (.lock id)) m (m.lock id).2 := by
  unfold lock
  split
  · exact .refl _ m
  · rename_i p running
    cases found : m.locks.get? id with
    | none => exact .of_shared_eq (by rfl) _
    | some l =>
      simp only
      split
      · rename_i acquired
        have same := l.id_acquire { p with pc := m.cpuPc - 1 }
        rw [acquired] at same
        exact .of_setLock tidy rfl found same rfl
      · rename_i parked
        have same := l.id_acquire { p with pc := m.cpuPc - 1 }
        rw [parked] at same
        exact .of_setLock tidy rfl found same rfl

theorem confines_unlock (tidy : m.locks.Tidy) {id : LockId} {r : Lock.Request}
    (request : t.tableRequest? = some (id, r)) : Confines (some t) m (m.unlock id) := by
  unfold unlock
  split
  · rename_i found
    split
    · exact .of_shared_eq (by rfl) _
    · dsimp only
      split <;> exact .of_setLock tidy request found (Lock.id_release ..) rfl
  · exact .refl _ m

theorem confines_tryLock (tidy : m.locks.Tidy) (id : LockId) :
    Confines (some (.tryLock id)) m (m.tryLock id) := by
  unfold tryLock
  split
  · rename_i found
    exact .of_setLock tidy rfl found (Lock.id_tryAcquire ..) rfl
  · exact .refl _ m

theorem confines_enterChannel (m : Machine σ) (id : ChannelId) :
    Confines (some (.rendezvousAcquire id)) m (m.enterChannel id).2 := by
  unfold enterChannel
  split
  · split <;> exact .of_setChannel rfl rfl
  · exact .refl _ m

theorem confines_leaveChannel (m : Machine σ) (id : ChannelId) :
    Confines (some (.rendezvousRelease id)) m (m.leaveChannel id) := by
  unfold leaveChannel
  split
  · dsimp only
    split <;> exact .of_setChannel rfl rfl
  · exact .refl _ m

theorem confines_rendezvous (m : Machine σ) (id : ChannelId) :
    Confines (some (.rendezvousBody id)) m (m.rendezvous id).2 := by
  unfold rendezvous
  split
  · split
    · exact .refl _ m
    · rename_i role _
      split
      · exact .of_setChannel rfl rfl
      · cases role <;> exact .of_setChannel rfl rfl
  · exact .refl _ m

theorem confines_handleTrap (tidy : m.locks.Tidy) (t : Trap) :
    Confines (some t) m (m.handleTrap t).2 := by
  let m₀ := m.measure fun c => { c with traps := c.traps.increment t.label }
  have counted : Confines (some t) m m₀ := .of_shared_eq (by rfl) _
  have tidy₀ : m₀.locks.Tidy := tidy
  simp only [handleTrap]
  cases t with
  | io device => exact counted.trans (.of_shared_eq (shared_startIo m₀ device) _)
  | lock id => exact counted.trans (confines_lock tidy₀ id)
  | unlock id => exact counted.trans (confines_unlock tidy₀ (by rfl))
  | tryLock id => exact counted.trans (confines_tryLock tidy₀ id)
  | tryUnlock id => exact counted.trans (confines_unlock tidy₀ (by rfl))
  | rendezvousAcquire id => exact counted.trans (confines_enterChannel m₀ id)
  | rendezvousBody id => exact counted.trans (confines_rendezvous m₀ id)
  | rendezvousRelease id => exact counted.trans (confines_leaveChannel m₀ id)

/-! ## What shares nothing -/

theorem shared_preempt (m : Machine σ) : m.preempt.shared = m.shared := by
  unfold preempt
  split <;> rfl

theorem shared_dispatch (m : Machine σ) : m.dispatch.shared = m.shared := by
  unfold dispatch
  split <;> rfl

theorem shared_scanIfDue (m : Machine σ) : m.scanIfDue.shared = m.shared := by
  obtain ⟨sinceScan, monitor, journal, scan⟩ := Scene.scanIfDue_eq m
  rw [scan]
  rfl

theorem shared_advance {p : Proc} (running : m.running = some p) (h : m.advance = .ok m') :
    m'.shared = m.shared := by
  obtain ⟨q, pc, rfl, -⟩ := Scene.exists_of_advance running h
  rfl

theorem Raises.shared_eq {p : Proc} (h : m.Raises p t m') : m'.shared = m.beginCycle.shared := by
  obtain ⟨running, m₁, advance, rfl, -⟩ := h
  rw [shared_scanIfDue, shared_advance (m := m.beginCycle) running advance]

/-- A trap, with the step of the process that raises it. -/
theorem Raises.confines {p : Proc} (h : m.Raises p t m') (tidy : m.locks.Tidy) :
    Confines (some t) m.beginCycle (m'.handleTrap t).2 := by
  have shared := h.shared_eq
  have same : m'.locks = m.locks := congrArg (·.2.1) shared
  have tidy' : m'.locks.Tidy := same ▸ tidy
  exact (Confines.of_shared_eq shared (some t)).trans (confines_handleTrap tidy' t)

theorem shared_terminateIfDone {pid : Pid} (h : m.terminateIfDone pid = some m') :
    m'.shared = m.shared := by
  obtain ⟨p, -, -, -, rfl⟩ := exists_of_terminateIfDone h
  rfl

theorem shared_completeIo {device : DeviceId} (h : m.completeIo device = .ok (some m')) :
    m'.shared = m.shared := by
  obtain ⟨dev, p, q, countdown, gen, -, -, rfl⟩ := exists_of_completeIo h
  rfl

end Machine

/-! ## Runs -/

namespace Moment

/-- What a step of a run does to what processes share. -/
inductive Turn (mo mo' : Moment σ) : Prop
  /-- It goes on as it was. -/
  | still (shared : mo'.ledger.machine.shared = mo.ledger.machine.shared ∨
      mo'.ledger.machine.shared = mo.ledger.machine.beginCycle.shared)
    (arrived : mo'.ledger.arrived = mo.ledger.arrived)
    (dropped : mo'.ledger.dropped = mo.ledger.dropped)
  /-- A trap of the running process is handled. -/
  | trap {p : Proc} {t : Trap} {m : Machine σ} (raises : mo.ledger.machine.Raises p t m)
    (handled : mo'.ledger.machine = (m.handleTrap t).2)
    (arrived : mo'.ledger.arrived = mo.ledger.arrived)
    (dropped : mo'.ledger.dropped = mo.ledger.dropped)
  | arrive {m : Machine σ} {as : List Arrival} (before : m.shared = mo.ledger.machine.shared)
    (after : mo'.ledger.machine.shared = (as.foldl Machine.receive m).shared)
    (arrived : mo'.ledger.arrived = mo.ledger.arrived ++ as)
    (dropped : mo'.ledger.dropped = mo.ledger.dropped)
  /-- The ended processes are dropped. -/
  | reap {m : Machine σ} (before : m.shared = mo.ledger.machine.shared)
    (after : mo'.ledger.machine.shared =
      (mo.ledger.machine.zombies.foldl Machine.reapOne m).shared)
    (arrived : mo'.ledger.arrived = mo.ledger.arrived)
    (dropped : mo'.ledger.dropped = mo.ledger.dropped ++ mo.ledger.machine.zombies)

variable [Workload σ] {mo mo' : Moment σ}

theorem exists_of_requestBatch {m m' : Machine σ} {n : Nat} (h : m.requestBatch = .ok (n, m')) :
    ∃ m₀ : Machine σ, m₀.shared = m.shared ∧
      m'.shared = (m.nextArrivals.foldl Machine.receive m₀).shared := by
  obtain ⟨batch, answer, h⟩ := exists_of_bind_eq_ok h
  cases h
  have next : m.nextArrivals = batch.arrivals := by
    rw [Machine.nextArrivals, Machine.eq_of_attempt answer]
  rw [next]
  exact ⟨{ m with workload := batch.rest, pids := batch.pids }, rfl, rfl⟩

theorem turn_of_phase {l : Ledger σ} {cause : Cause} {phase : Phase} {m : Machine σ}
    {pending pending' : List Duty} (h : l.machine.phase cause phase = .ok m) :
    Turn ⟨l, pending⟩ ⟨⟨m, l.arrived ++ l.machine.arrivalsOf phase,
      l.dropped ++ l.machine.droppedBy phase⟩, pending'⟩ := by
  cases phase with
  | priorityReset =>
    simp only [Machine.phase, Machine.arrivalsOf, Machine.droppedBy, List.append_nil] at h ⊢
    split at h
    case isTrue due =>
      obtain ⟨⟨n, m₁⟩, request, h⟩ := exists_of_bind_eq_ok h
      cases h
      obtain ⟨m₀, before, after⟩ := exists_of_requestBatch request
      rw [if_pos due]
      exact .arrive before after rfl rfl
    case isFalse early =>
      cases h
      rw [if_neg early, List.append_nil]
      exact .still (.inl rfl) rfl rfl
  | admission =>
    cases h
    exact .still (.inl rfl) (List.append_nil _) (List.append_nil _)
  | preemption =>
    cases h
    refine .still (.inl ?_) (List.append_nil _) (List.append_nil _)
    dsimp only
    split
    · exact Machine.shared_preempt l.machine
    · rfl
  | dispatching =>
    cases h
    refine .still (.inl ?_) (List.append_nil _) (List.append_nil _)
    dsimp only
    split
    · exact Machine.shared_dispatch l.machine
    · rfl
  | reaping =>
    cases h
    simp only [Machine.arrivalsOf, Machine.droppedBy, List.append_nil]
    split
    · exact .reap (m := { l.machine with zombies := [] }) rfl rfl rfl rfl
    · rw [List.append_nil]
      exact .still (.inl rfl) rfl rfl

/-- Whatever happens in a run is one of the three, or leaves alone what processes share. -/
theorem Next.turn (h : Next mo mo') : Turn mo mo' := by
  cases h with
  | boot h =>
    obtain ⟨⟨n, m₁⟩, request, h⟩ := exists_of_bind_eq_ok h
    cases h
    obtain ⟨m₀, before, after⟩ := exists_of_requestBatch request
    exact .arrive before after rfl rfl
  | request h =>
    obtain ⟨m₀, before, after⟩ := exists_of_requestBatch h
    exact .arrive before after rfl rfl
  | schedule | done | goOn => exact .still (.inl rfl) rfl rfl
  | idleCycle idle => exact .still (.inr (Machine.shared_scanIfDue _)) rfl rfl
  | @busyCycle l p cause m running h =>
    rcases Machine.exists_raises_of_stepRunning running h with
      ⟨m₁, advance, rfl, -⟩ | ⟨t, m₁, raises, handled⟩
    · refine .still (.inr ?_) rfl rfl
      exact (Machine.shared_scanIfDue m₁).trans
        (Machine.shared_advance (m := l.machine.beginCycle) running advance)
    · exact .trap raises (congrArg Prod.snd handled) rfl rfl
  | timer => exact .still (.inl rfl) rfl rfl
  | completion _ h => exact .still (.inl (Machine.shared_completeIo h)) rfl rfl
  | phase h => exact turn_of_phase h
  | terminate h => exact .still (.inl (Machine.shared_terminateIfDone h)) rfl rfl

end Moment
end Mlfq
