import Mlfq.Proofs.Run.Source
import Mlfq.Proofs.Story.Topics

/-! # The counts agree with the trace

What happens in a run is counted in up to four places: in the figures of the machine, in the census,
in the metrics, and label by label with the events. Every function of the machine that raises a
count emits the event that the count is about, and the other way round. -/

namespace Mlfq

variable {σ : Type}

/-- A count that is raised by hand. Those that end in `Total` belong to the metrics. -/
inductive Counter where
  | dispatches
  | quantumExpiries
  | ioCompletions
  | priorityResets
  /-- The processes of a kind that were created, by the census. -/
  | created (kind : Proc.Kind)
  /-- The processes of a kind that have ended, by the census. -/
  | terminated (kind : Proc.Kind)
  | dispatchesTotal
  | quantumExpiriesTotal
  | ioCompletionsTotal
  | priorityResetsTotal
  | terminationsTotal
  | deadlocksTotal

namespace Counter

/-- What a counter shows. -/
def reading (m : Machine σ) : Counter → Nat
  | .dispatches => m.dispatches
  | .quantumExpiries => m.quantumExpiries
  | .ioCompletions => m.ioCompletions
  | .priorityResets => m.priorityResets
  | .created kind => (m.census.tally kind).created
  | .terminated kind => (m.census.tally kind).terminated
  | .dispatchesTotal => m.journal.metrics.dispatches
  | .quantumExpiriesTotal => m.journal.metrics.quantumExpiries
  | .ioCompletionsTotal => m.journal.metrics.ioCompletions
  | .priorityResetsTotal => m.journal.metrics.priorityResets
  | .terminationsTotal => m.journal.metrics.terminations
  | .deadlocksTotal => m.journal.metrics.deadlocks

/-- Whether an event is to be counted. -/
def counts : Counter → Event → Bool
  | .dispatches, .dispatched .. | .dispatchesTotal, .dispatched .. => true
  | .quantumExpiries, .quantumExpired .. | .quantumExpiriesTotal, .quantumExpired .. => true
  | .ioCompletions, .ioCompleted .. | .ioCompletionsTotal, .ioCompleted .. => true
  | .priorityResets, .prioritiesReset .. | .priorityResetsTotal, .prioritiesReset .. => true
  | .created kind, .admitted _ other => kind = other
  | .terminated kind, .terminated _ other => kind = other
  | .terminationsTotal, .terminated .. => true
  | .deadlocksTotal, .deadlockDetected .. => true
  | _, _ => false

end Counter

/-- Whether there is a counter for an event. -/
def Event.isCounted : Event → Bool
  | .admitted .. | .dispatched .. | .quantumExpired .. | .ioCompleted .. | .terminated ..
  | .prioritiesReset .. | .deadlockDetected .. => true
  | _ => false

theorem Counter.counts_eq_false {e : Event} (h : e.isCounted = false) (c : Counter) :
    c.counts e = false := by
  cases e <;> first | (cases c <;> rfl) | cases h

namespace Machine

/-- What the writing of an event depends on, and the gauge of the ended processes. -/
def desk (m : Machine σ) : (Bool × Trace × LabelCounts × Nat) × Nat × Nat :=
  ((m.journal.tracing, m.journal.trace, m.journal.metrics.events, m.iteration),
    m.journal.metrics.zombieLength, m.zombies.length)

/-- All that is counted. -/
def accounts (m : Machine σ) : ((Bool × Trace × LabelCounts × Nat) × Nat × Nat) × (Counter → Nat) :=
  (m.desk, Counter.reading m)

/-- All counts agree with the trace, and the trace is in the order of the cycles. -/
structure Reconciled (m : Machine σ) : Prop where
  tracing : m.journal.tracing = true
  counters : ∀ c : Counter, c.reading m = m.events.countP c.counts
  labels : ∀ label, m.journal.metrics.events.count label = m.events.countP (label = ·.label)
  gauge : m.journal.metrics.zombieLength = m.zombies.length
  ordered : m.journal.trace.entries.Pairwise fun e e' => e.iteration ≤ e'.iteration
  begun : ∀ e ∈ m.journal.trace.entries, e.iteration ≤ m.iteration

namespace Reconciled

variable {m m' m₁ : Machine σ}

/-- Nothing that is counted changes. -/
theorem frame (h : m.Reconciled) (same : m'.accounts = m.accounts) : m'.Reconciled := by
  obtain ⟨desk, reading⟩ := Prod.mk.inj same
  simp only [Machine.desk, Prod.mk.injEq] at desk
  obtain ⟨⟨tracing, trace, labels, iteration⟩, gauge, zombies⟩ := desk
  have events : m'.events = m.events := congrArg Trace.events trace
  constructor
  · rw [tracing, h.tracing]
  · intro c
    rw [reading, events, h.counters]
  · intro label
    rw [labels, events, h.labels]
  · rw [gauge, zombies, h.gauge]
  · rw [trace]
    exact h.ordered
  · rw [trace, iteration]
    exact h.begun

/-- An event is written after its counters were raised. -/
theorem post (h : m.Reconciled) {e : Event} (desk : m₁.desk = m.desk)
    (raised : ∀ c, Counter.reading m₁ c = Counter.reading m c + if c.counts e then 1 else 0) :
    (m₁.emit e).Reconciled := by
  simp only [Machine.desk, Prod.mk.injEq] at desk
  obtain ⟨⟨tracing, trace, labels, iteration⟩, gauge, zombies⟩ := desk
  have traced : m₁.journal.tracing = true := tracing.trans h.tracing
  have entries : (m₁.emit e).journal.trace.entries =
      m.journal.trace.entries ++ [⟨m.iteration, e⟩] := by
    rw [emit, Journal.trace_event, if_pos traced, Trace.entries_record, trace, iteration]
  have events : (m₁.emit e).events = m.events ++ [e] := by
    rw [events_emit traced, Machine.events, Machine.events, trace]
  have metrics : (m₁.emit e).journal.metrics = { m₁.journal.metrics with
      events := m₁.journal.metrics.events.increment e.label } := by
    simp only [emit, Journal.event, Journal.measure, Journal.metrics_log, Journal.tracing_log]
    split <;> rfl
  have reading : ∀ c, Counter.reading (m₁.emit e) c = Counter.reading m₁ c := by
    intro c
    cases c <;> simp only [Counter.reading, metrics] <;> rfl
  constructor
  · exact (Journal.tracing_event ..).trans traced
  · intro c
    rw [reading, raised, events, h.counters, List.countP_append, List.countP_singleton]
  · intro label
    rw [metrics, LabelCounts.count_increment, labels, events, h.labels, List.countP_append,
      List.countP_singleton]
    simp
  · rw [metrics]
    exact (gauge.trans h.gauge).trans zombies.symm
  · rw [entries, List.pairwise_append]
    refine ⟨h.ordered, List.pairwise_singleton .., fun e' he' last hlast => ?_⟩
    rw [List.mem_singleton.1 hlast]
    exact h.begun e' he'
  · intro e' he'
    show e'.iteration ≤ m₁.iteration
    rw [iteration]
    rw [entries, List.mem_append, List.mem_singleton] at he'
    rcases he' with old | rfl
    · exact h.begun e' old
    · exact Nat.le_refl _

/-- An event for which there is no counter. -/
theorem emit (h : m.Reconciled) {e : Event} (uncounted : e.isCounted = false) :
    (m.emit e).Reconciled := by
  refine h.post (by rfl) fun c => ?_
  rw [Counter.counts_eq_false uncounted c]
  rfl

theorem log (h : m.Reconciled) (message : Message) : (m.log message).Reconciled := by
  apply h.frame
  have journal : ∃ lines, m.log message = { m with
      journal := { m.journal with logNewestFirst := lines } } := by
    simp only [Machine.log, Journal.log]
    split
    · exact ⟨_, rfl⟩
    · exact ⟨_, rfl⟩
  obtain ⟨lines, journal⟩ := journal
  rw [journal]
  rfl

theorem foldl {α : Type} {f : Machine σ → α → Machine σ}
    (each : ∀ {m} a, m.Reconciled → (f m a).Reconciled) (as : List α) (h : m.Reconciled) :
    (as.foldl f m).Reconciled := by
  induction as generalizing m with
  | nil => exact h
  | cons a as ih => exact ih (each a h)

/-! ## The dispatcher -/

theorem admitProc (h : m.Reconciled) (p : Proc) : (m.admitProc p).Reconciled := by
  have admitted : ({ m with census := m.census.noteCreated p.kind }.emit
      (.admitted p.pid p.kind)).Reconciled := by
    refine h.post (by rfl) fun c => ?_
    cases c with
    | created kind =>
      simp only [Counter.reading, Counter.counts, Census.noteCreated, Census.tally_modify,
        decide_eq_true_eq]
      split <;> rfl
    | terminated kind =>
      simp only [Counter.reading, Counter.counts, Census.noteCreated, Census.tally_modify]
      split <;> rfl
    | _ => rfl
  exact admitted.frame rfl

theorem receive (a : Arrival) (h : m.Reconciled) : (m.receive a).Reconciled := by
  cases a with
  | single p => exact h.admitProc p
  | mutexPair | rendezvousPair =>
    simp only [Machine.receive]
    exact admitProc (admitProc (h.frame (by rfl)) _) _

theorem requestBatch [Workload σ] {n : Nat} (h : m.Reconciled)
    (request : m.requestBatch = .ok (n, m')) : m'.Reconciled := by
  obtain ⟨batch, -, request⟩ := exists_of_bind_eq_ok request
  cases request
  exact (h.frame (by rfl)).foldl receive batch.arrivals

theorem boot [Workload σ] (h : m.Reconciled) (boots : m.boot = .ok m') : m'.Reconciled := by
  obtain ⟨⟨n, m₁⟩, request, boots⟩ := exists_of_bind_eq_ok boots
  cases boots
  exact (h.requestBatch request).log _

theorem resetPriorities [Workload σ] (h : m.Reconciled) (resets : m.resetPriorities = .ok m') :
    m'.Reconciled := by
  obtain ⟨⟨n, m₁⟩, request, resets⟩ := exists_of_bind_eq_ok resets
  cases resets
  have asked : m₁.Reconciled := (h.frame (by rfl)).requestBatch request
  refine asked.post (by rfl) fun c => ?_
  cases c <;> rfl

theorem preempt (h : m.Reconciled) : m.preempt.Reconciled := by
  unfold Machine.preempt
  split
  · exact h
  · rename_i p running
    have expired : (({ m with running := none, quantumExpiries := m.quantumExpiries + 1 }.measure
        fun c => { c with quantumExpiries := c.quantumExpiries + 1 }).emit
          (.quantumExpired p.pid p.priority.demoted)).Reconciled := by
      refine h.post (by rfl) fun c => ?_
      cases c <;> rfl
    exact expired.frame rfl

theorem dispatch (h : m.Reconciled) : m.dispatch.Reconciled := by
  unfold Machine.dispatch
  split
  · exact h.emit rfl
  · apply log
    refine h.post (by rfl) fun c => ?_
    cases c <;> rfl

end Reconciled

/-! ## Ended processes -/

theorem accounts_dropLock (m : Machine σ) (id : LockId) :
    (m.dropLock id).accounts = m.accounts := by
  unfold dropLock
  split <;> rfl

theorem accounts_retireFromPair (m : Machine σ) (pid : Pid) :
    (m.retireFromPair pid).accounts = m.accounts := by
  unfold retireFromPair
  rcases MutexPairs.retire pid m.pairs.pairs with ⟨- | ⟨a, b⟩, pairs⟩
  · rfl
  · simp only [accounts_dropLock]
    rfl

theorem accounts_retireFromChannel (m : Machine σ) (p : Proc) :
    (m.retireFromChannel p).accounts = m.accounts := by
  unfold retireFromChannel
  split
  · rfl
  · split
    · rfl
    · dsimp only
      split <;> rfl

theorem accounts_foldl_reapOne (ps : Queue) (m : Machine σ) :
    (ps.foldl reapOne m).accounts = m.accounts := by
  induction ps generalizing m with
  | nil => rfl
  | cons p ps ih =>
    rw [List.foldl_cons, ih, reapOne, accounts_retireFromChannel, accounts_retireFromPair]

namespace Reconciled

variable {m m' : Machine σ}

/-- The gauge is set to the number of ended processes. -/
theorem setZombies (h : m.Reconciled) (zombies : Queue) :
    ({ m with zombies }.measure fun c => { c with zombieLength := zombies.length }).Reconciled :=
  ⟨h.tracing, fun c => (by cases c <;> rfl : _ = Counter.reading m c).trans (h.counters c),
    h.labels, rfl, h.ordered, h.begun⟩

theorem reap (h : m.Reconciled) : m.reap.Reconciled := by
  have reaped := accounts_foldl_reapOne m.zombies { m with zombies := [] }
  have flushed : ((m.zombies.foldl reapOne { m with zombies := [] }).measure
      fun c => { c with zombieLength := 0 }).Reconciled := by
    apply (h.setZombies []).frame
    refine Prod.ext ?_ (funext fun c => ?_)
    · exact congrArg (fun a => (a.1.1, 0, a.1.2.2)) reaped
    · have reading := congrFun (congrArg Prod.snd reaped) c
      cases c <;> exact reading
  exact flushed.emit rfl

theorem phase [Workload σ] {cause : Cause} {phase : Phase} (h : m.Reconciled)
    (runs : m.phase cause phase = .ok m') : m'.Reconciled := by
  cases phase <;> simp only [Machine.phase] at runs
  case priorityReset =>
    split at runs
    · exact h.resetPriorities runs
    · cases runs
      exact h
  case admission =>
    cases runs
    exact h.frame rfl
  all_goals
    cases runs
    split
  · exact h.preempt
  · exact h
  · exact h.dispatch
  · exact h
  · exact h.reap
  · exact h

/-! ## Cycles -/

theorem raiseTimer (h : m.Reconciled) : m.raiseTimer.Reconciled := emit (h.frame (by rfl)) rfl

theorem beginCycle (h : m.Reconciled) : m.beginCycle.Reconciled :=
  ⟨h.tracing, fun c => (by cases c <;> rfl : _ = Counter.reading m c).trans (h.counters c),
    h.labels, h.gauge, h.ordered, fun e he => Nat.le_succ_of_le (h.begun e he)⟩

theorem reportDeadlock (d : Deadlock) (h : m.Reconciled) : (m.reportDeadlock d).Reconciled := by
  unfold Machine.reportDeadlock
  split
  · refine h.post (by rfl) fun c => ?_
    cases c <;> rfl
  · exact h.log _

theorem scanIfDue (h : m.Reconciled) : m.scanIfDue.Reconciled := by
  unfold Machine.scanIfDue
  split
  · exact (h.frame (by rfl)).foldl reportDeadlock _
  · exact h

theorem advance (h : m.Reconciled) (advance : m.advance = .ok m') : m'.Reconciled := by
  cases running : m.running with
  | none =>
    simp only [Machine.advance, running] at advance
    cases advance
    exact h
  | some p =>
    obtain ⟨q, pc, rfl, -⟩ := Scene.exists_of_advance running advance
    exact h.frame rfl

theorem terminateIfDone {pid : Pid} (h : m.Reconciled) (ends : m.terminateIfDone pid = some m') :
    m'.Reconciled := by
  obtain ⟨p, -, -, -, rfl⟩ := exists_of_terminateIfDone ends
  have ended : (({ m with running := none, census := m.census.noteTerminated p.kind }.measure
      fun c => { c with terminations := c.terminations + 1 }).emit
        (.terminated p.pid p.kind)).Reconciled := by
    refine h.post (by rfl) fun c => ?_
    cases c with
    | created kind =>
      simp only [Counter.reading, Counter.counts, measure, Census.noteTerminated,
        Census.tally_modify]
      split <;> rfl
    | terminated kind =>
      simp only [Counter.reading, Counter.counts, measure, Census.noteTerminated,
        Census.tally_modify, decide_eq_true_eq]
      split <;> rfl
    | _ => rfl
  exact ended.setZombies _

theorem completeIo {d : DeviceId} (h : m.Reconciled) (done : m.completeIo d = .ok (some m')) :
    m'.Reconciled := by
  obtain ⟨device, p, q, countdown, gen, -, -, rfl⟩ := exists_of_completeIo done
  refine h.post (by rfl) fun c => ?_
  cases c <;> rfl

/-! ## Traps -/

theorem startIo (h : m.Reconciled) (d : DeviceId) : (m.startIo d).2.Reconciled := by
  unfold Machine.startIo
  split
  · exact emit (h.frame (by rfl)) rfl
  · exact h

theorem lock (h : m.Reconciled) (id : LockId) : (m.lock id).2.Reconciled := by
  unfold Machine.lock
  split
  · exact h
  · split
    · exact h.log _
    · split <;> exact emit (h.frame (by rfl)) rfl

theorem unlock (h : m.Reconciled) (id : LockId) : (m.unlock id).Reconciled := by
  unfold Machine.unlock
  split
  · split
    · exact h.emit rfl
    · dsimp only
      split
      · exact emit (h.frame (by rfl)) rfl
      · exact h.frame rfl
  · exact h

theorem tryLock (h : m.Reconciled) (id : LockId) : (m.tryLock id).Reconciled := by
  unfold Machine.tryLock
  split
  · exact emit (h.frame (by rfl)) rfl
  · exact h

theorem enterChannel (h : m.Reconciled) (id : ChannelId) :
    (m.enterChannel id).2.Reconciled := by
  unfold Machine.enterChannel
  split
  · split
    · exact log (h.frame (by rfl)) _
    · exact emit (h.frame (by rfl)) rfl
  · exact h

theorem leaveChannel (h : m.Reconciled) (id : ChannelId) : (m.leaveChannel id).Reconciled := by
  unfold Machine.leaveChannel
  split
  · dsimp only
    split
    · exact log (h.frame (by rfl)) _
    · exact h.frame rfl
  · exact h

theorem rendezvous (h : m.Reconciled) (id : ChannelId) : (m.rendezvous id).2.Reconciled := by
  unfold Machine.rendezvous
  split
  · split
    · exact h
    · rename_i role _
      split
      · exact emit (h.frame (by rfl)) rfl
      · cases role <;> exact emit (emit (h.frame (by rfl)) rfl) rfl
  · exact h

theorem handleTrap (h : m.Reconciled) (t : Trap) : (m.handleTrap t).2.Reconciled := by
  have counted : (m.measure fun c => { c with traps := c.traps.increment t.label }).Reconciled :=
    h.frame rfl
  unfold Machine.handleTrap
  cases t with
  | io d => exact counted.startIo d
  | lock id => exact counted.lock id
  | unlock id | tryUnlock id => exact counted.unlock id
  | tryLock id => exact counted.tryLock id
  | rendezvousAcquire id => exact counted.enterChannel id
  | rendezvousBody id => exact counted.rendezvous id
  | rendezvousRelease id => exact counted.leaveChannel id

theorem stepRunning {cause : Option Cause} (h : m.Reconciled)
    (steps : m.stepRunning = .ok (cause, m')) : m'.Reconciled := by
  obtain ⟨m₁, advance, steps⟩ := exists_of_bind_eq_ok steps
  obtain ⟨t, -, steps⟩ := exists_of_bind_eq_ok steps
  have scanned : m₁.scanIfDue.Reconciled := (h.beginCycle.advance advance).scanIfDue
  cases t with
  | none =>
    cases steps
    exact scanned
  | some t =>
    have handled : (m₁.scanIfDue.handleTrap t).2 = m' := congrArg Prod.snd (Except.ok.inj steps)
    exact handled ▸ scanned.handleTrap t

/-- Whatever happens in a run, the counts follow. -/
theorem next [Workload σ] {mo mo' : Moment σ} (h : mo.ledger.machine.Reconciled)
    (next : Moment.Next mo mo') : mo'.ledger.machine.Reconciled := by
  cases next with
  | boot boots => exact h.boot boots
  | request request => exact h.requestBatch request
  | schedule | done | goOn => exact h
  | idleCycle => exact scanIfDue (h.beginCycle.frame rfl)
  | busyCycle running steps => exact h.stepRunning steps
  | timer => exact h.raiseTimer
  | completion _ done => exact h.completeIo done
  | phase runs => exact h.phase runs
  | terminate ends => exact h.terminateIfDone ends

end Reconciled
end Machine

theorem Moment.reconciled_of_reachable [Workload σ] {config : Config} {workload : σ}
    {logLevel : Option Level} {mo : Moment σ}
    (reachable : Moment.Reachable (.start config workload logLevel) mo)
    (tracing : config.recordTrace = true) : mo.ledger.machine.Reconciled := by
  induction reachable with
  | refl =>
    refine ⟨tracing, fun c => ?_, fun label => rfl, rfl, List.Pairwise.nil, nofun⟩
    cases c with
    | created kind | terminated kind => cases kind <;> rfl
    | _ => rfl
  | tail _ next ih => exact ih.next next

end Mlfq
