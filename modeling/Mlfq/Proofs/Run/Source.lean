import Mlfq.Proofs.Run.Extent

/-! # Where arrivals come from

Only a request for a batch touches the workload and the allocator of process numbers, and only
arrivals and endings touch the census. So what every batch keeps holds of all arrivals of a run. -/

namespace Mlfq

variable {σ : Type}

/-- The census after these processes were counted as created. -/
def Census.noteAll (c : Census) (ps : List Proc) : Census :=
  ps.foldl (fun c p => c.noteCreated p.kind) c

namespace Machine

/-- The workload and the allocator of process numbers. -/
def source (m : Machine σ) : σ × PidAllocator := (m.workload, m.pids)

/-- What only arrivals and endings touch. -/
def backdrop (m : Machine σ) : (σ × PidAllocator) × Census × Queue :=
  (m.source, m.census, m.zombies)

theorem of_backdrop {m : Machine σ} {workload : σ} {pids : PidAllocator} {census : Census}
    {zombies : Queue} (h : m.backdrop = ((workload, pids), census, zombies)) :
    m.workload = workload ∧ m.pids = pids ∧ m.census = census ∧ m.zombies = zombies := by
  cases h
  exact ⟨rfl, rfl, rfl, rfl⟩

/-- What a process cannot touch in a cycle of its own. -/
def background (m : Machine σ) : ((σ × PidAllocator) × Census × Queue) × Nat :=
  (m.backdrop, m.dispatches)

variable {m m' : Machine σ}

/-! ## The dispatcher -/

/-- An arrival is counted as created, process by process. -/
theorem backdrop_receive (m : Machine σ) (a : Arrival) :
    (m.receive a).backdrop = (m.source, m.census.noteAll a.procs, m.zombies) := by
  cases a with
  | single | mutexPair => rfl
  | rendezvousPair producer consumer =>
    simp only [Census.noteAll, Arrival.procs, List.foldl_cons, List.foldl_nil]
    rw [← producer.kind_bindChannel ⟨m.nextChannel⟩, ← consumer.kind_bindChannel ⟨m.nextChannel⟩]
    rfl

theorem backdrop_foldl_receive (as : List Arrival) (m : Machine σ) :
    (as.foldl receive m).backdrop =
      (m.source, m.census.noteAll (as.flatMap Arrival.procs), m.zombies) := by
  induction as generalizing m with
  | nil => rfl
  | cons a as ih =>
    obtain ⟨workload, pids, census, zombies⟩ := of_backdrop (m.backdrop_receive a)
    rw [List.foldl_cons, ih, source, workload, pids, census, zombies, Census.noteAll,
      Census.noteAll, Census.noteAll, List.flatMap_cons, List.foldl_append]
    rfl

theorem backdrop_preempt (m : Machine σ) : m.preempt.backdrop = m.backdrop := by
  obtain ⟨running, ready, quantumExpiries, journal, preempt⟩ := m.exists_of_preempt
  rw [preempt]
  rfl

theorem backdrop_dispatch (m : Machine σ) : m.dispatch.backdrop = m.backdrop := by
  obtain ⟨running, cpuPc, ready, sinceScan, dispatches, journal, dispatch⟩ := m.exists_of_dispatch
  rw [dispatch]
  rfl

theorem backdrop_reap (m : Machine σ) : m.reap.backdrop = (m.source, m.census, []) := by
  obtain ⟨ready, locks, pairs, channels, journal, reap⟩ := m.exists_of_reap
  rw [reap]
  rfl

/-! ## Cycles -/

theorem background_scanIfDue (m : Machine σ) : m.scanIfDue.background = m.background := by
  obtain ⟨sinceScan, monitor, journal, scan⟩ := Scene.scanIfDue_eq m
  rw [scan]
  rfl

theorem backdrop_scanIfDue (m : Machine σ) : m.scanIfDue.backdrop = m.backdrop :=
  congrArg Prod.fst (background_scanIfDue m)

theorem background_advance (h : m.advance = .ok m') : m'.background = m.background := by
  unfold advance at h
  cases hp : m.running with
  | none =>
    rw [hp] at h
    cases h
    rfl
  | some p =>
    rw [hp] at h
    obtain ⟨pc, -, h⟩ := exists_of_bind_eq_ok h
    split at h
    · cases h
      rfl
    · obtain ⟨wraps, -, h⟩ := exists_of_bind_eq_ok h
      cases h
      rfl

theorem background_handleTrap (m : Machine σ) (t : Trap) :
    (m.handleTrap t).2.background = m.background := by
  obtain ⟨running, ready, devices, locks, channels, gen, journal, handled⟩ :=
    m.reseats_handleTrap t
  rw [handled]
  rfl

theorem background_stepRunning {cause : Option Cause} (h : m.stepRunning = .ok (cause, m')) :
    m'.background = m.background := by
  obtain ⟨m₁, h₁, h⟩ := exists_of_bind_eq_ok h
  obtain ⟨t, -, h⟩ := exists_of_bind_eq_ok h
  have same : m₁.scanIfDue.background = m.background := by
    rw [background_scanIfDue, background_advance (m := m.beginCycle) h₁]
    rfl
  cases t with
  | none =>
    cases h
    exact same
  | some t =>
    have handled : (m₁.scanIfDue.handleTrap t).2 = m' := congrArg Prod.snd (Except.ok.inj h)
    rw [← handled, background_handleTrap, same]

theorem backdrop_stepRunning {cause : Option Cause} (h : m.stepRunning = .ok (cause, m')) :
    m'.backdrop = m.backdrop := congrArg Prod.fst (background_stepRunning h)

theorem dispatches_stepRunning {cause : Option Cause} (h : m.stepRunning = .ok (cause, m')) :
    m'.dispatches = m.dispatches := congrArg Prod.snd (background_stepRunning h)

theorem backdrop_completeIo {d : DeviceId} (h : m.completeIo d = .ok (some m')) :
    m'.backdrop = m.backdrop := by
  obtain ⟨dev, p, q, countdown, gen, -, -, rfl⟩ := exists_of_completeIo h
  rfl

/-! ## Batches -/

variable [Workload σ]

/-- A request is answered by one batch. -/
theorem exists_batch_of_requestBatch {n : Nat} (h : m.requestBatch = .ok (n, m')) :
    ∃ batch, Workload.batch m.workload m.pids m.census = .ok batch ∧
      m'.backdrop = ((batch.rest, batch.pids),
        m.census.noteAll (batch.arrivals.flatMap Arrival.procs), m.zombies) ∧
      m.nextArrivals = batch.arrivals := by
  obtain ⟨batch, hbatch, h⟩ := exists_of_bind_eq_ok h
  have answer := eq_of_attempt hbatch
  cases h
  refine ⟨batch, answer, ?_, by rw [nextArrivals, answer]⟩
  rw [backdrop_foldl_receive]
  rfl

end Machine

/-! ## Runs -/

variable [Workload σ]

/-- What can happen to the backdrop of a run and to its books. -/
inductive Ledger.Shift (l l' : Ledger σ) : Prop
  | keep (backdrop : l'.machine.backdrop = l.machine.backdrop) (arrived : l'.arrived = l.arrived)
    (dropped : l'.dropped = l.dropped)
  /-- A batch comes. -/
  | come (batch : Batch σ)
    (answer : Workload.batch l.machine.workload l.machine.pids l.machine.census = .ok batch)
    (backdrop : l'.machine.backdrop = ((batch.rest, batch.pids),
      l.machine.census.noteAll (batch.arrivals.flatMap Arrival.procs), l.machine.zombies))
    (arrived : l'.arrived = l.arrived ++ batch.arrivals) (dropped : l'.dropped = l.dropped)
  /-- A process ends. -/
  | ending (p : Proc)
    (backdrop : l'.machine.backdrop = (l.machine.source,
      l.machine.census.noteTerminated p.kind, l.machine.zombies.enqueue p))
    (arrived : l'.arrived = l.arrived) (dropped : l'.dropped = l.dropped)
  /-- The processes that have ended are dropped. -/
  | drop (backdrop : l'.machine.backdrop = (l.machine.source, l.machine.census, []))
    (arrived : l'.arrived = l.arrived) (dropped : l'.dropped = l.dropped ++ l.machine.zombies)

namespace Moment

/-- What a request does. Whatever is done around it leaves the backdrop alone. -/
theorem shift_of_request {m m₀ m₁ m' : Machine σ} {arrived : List Arrival} {dropped : Queue}
    {n : Nat} (request : m₀.requestBatch = .ok (n, m₁)) (before : m₀.backdrop = m.backdrop)
    (after : m'.backdrop = m₁.backdrop) :
    Ledger.Shift ⟨m, arrived, dropped⟩ ⟨m', arrived ++ m.nextArrivals, dropped⟩ := by
  obtain ⟨workload, pids, census, zombies⟩ := Machine.of_backdrop before
  obtain ⟨batch, answer, backdrop, next⟩ := Machine.exists_batch_of_requestBatch request
  have same : m.nextArrivals = m₀.nextArrivals := by
    rw [Machine.nextArrivals, Machine.nextArrivals, workload, pids, census]
  rw [workload, pids, census] at answer
  rw [census, zombies] at backdrop
  exact .come batch answer (after.trans backdrop) (congrArg (arrived ++ ·) (same.trans next)) rfl

theorem shift_of_phase {m m' : Machine σ} {cause : Cause} {phase : Phase}
    {arrived : List Arrival} {dropped : Queue} (h : m.phase cause phase = .ok m') :
    Ledger.Shift ⟨m, arrived, dropped⟩
      ⟨m', arrived ++ m.arrivalsOf phase, dropped ++ m.droppedBy phase⟩ := by
  cases phase <;>
    simp only [Machine.phase, Machine.arrivalsOf, Machine.droppedBy, List.append_nil] at h ⊢
  case priorityReset =>
    split at h
    case isTrue due =>
      rw [if_pos due]
      obtain ⟨⟨n, m₁⟩, request, h⟩ := exists_of_bind_eq_ok h
      cases h
      exact shift_of_request request rfl rfl
    case isFalse early =>
      cases h
      rw [if_neg early, List.append_nil]
      exact .keep rfl rfl rfl
  case admission =>
    cases h
    exact .keep rfl rfl rfl
  all_goals
    cases h
    split
  · exact .keep (Machine.backdrop_preempt m) rfl rfl
  · exact .keep rfl rfl rfl
  · exact .keep (Machine.backdrop_dispatch m) rfl rfl
  · exact .keep rfl rfl rfl
  · exact .drop (Machine.backdrop_reap m) rfl rfl
  · rw [List.append_nil]
    exact .keep rfl rfl rfl

/-- Arrivals, endings and drops are all that happens to the backdrop. -/
theorem Next.shift {mo mo' : Moment σ} (h : Next mo mo') : mo.ledger.Shift mo'.ledger := by
  cases h with
  | boot h =>
    obtain ⟨⟨n, m₁⟩, request, h⟩ := exists_of_bind_eq_ok h
    cases h
    exact shift_of_request request rfl rfl
  | request h => exact shift_of_request h rfl rfl
  | schedule | done | goOn => exact .keep rfl rfl rfl
  | idleCycle => exact .keep (Machine.backdrop_scanIfDue _) rfl rfl
  | busyCycle running h => exact .keep (Machine.backdrop_stepRunning h) rfl rfl
  | timer => exact .keep rfl rfl rfl
  | completion _ done => exact .keep (Machine.backdrop_completeIo done) rfl rfl
  | phase h => exact shift_of_phase h
  | @terminate l pid m pending h =>
    obtain ⟨p, -, -, -, rfl⟩ := Machine.exists_of_terminateIfDone h
    exact .ending { p with pc := l.machine.cpuPc, state := .terminated, stopped := true }
      rfl rfl rfl

variable {m : Machine σ} {mo : Moment σ}

/-- What holds at the start and is kept by every batch holds of all arrivals of a run. -/
theorem arrivals_induction (good : σ → PidAllocator → List Arrival → Prop)
    (more : ∀ {w pids census batch arrived}, Workload.batch w pids census = .ok batch →
      good w pids arrived → good batch.rest batch.pids (arrived ++ batch.arrivals))
    (start : good m.workload m.pids []) (h : Reachable m mo) :
    good mo.ledger.machine.workload mo.ledger.machine.pids mo.ledger.arrived := by
  induction h with
  | refl => exact start
  | tail _ next ih =>
    cases next.shift with
    | keep backdrop arrived | ending p backdrop arrived | drop backdrop arrived =>
      obtain ⟨workload, pids, -, -⟩ := Machine.of_backdrop backdrop
      rw [workload, pids, arrived]
      exact ih
    | come batch answer backdrop arrived =>
      obtain ⟨workload, pids, -, -⟩ := Machine.of_backdrop backdrop
      rw [workload, pids, arrived]
      exact more answer ih

end Moment
end Mlfq
