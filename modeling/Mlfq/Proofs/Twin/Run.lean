import Mlfq.Proofs.Twin.Step

/-! # Two runs, call by call

A comparison runs one workload under two configurations that differ only in what is observed. The
same calls lead both runs to moments that mirror each other, or both to the same fault. -/

namespace Mlfq

variable {σ : Type} [Workload σ]

namespace Moment.Next

variable {m m₁ : Machine σ} {p : Proc}

/-- A cycle without a trap. -/
theorem of_advance (running : m.running = some p) (advance : m.beginCycle.advance = .ok m₁)
    (quiet : m₁.scanIfDue.pendingTrap = .ok none) (arrived : List Arrival) (dropped : Queue) :
    Next ⟨⟨m, arrived, dropped⟩, []⟩ ⟨⟨m₁.scanIfDue, arrived, dropped⟩, [.closeCycle p.pid]⟩ := by
  have step : m.stepRunning = .ok (none, m₁.scanIfDue) := by
    simp only [Machine.stepRunning, advance, quiet, bind, Except.bind, pure, Except.pure]
  exact @busyCycle _ _ ⟨m, arrived, dropped⟩ p none m₁.scanIfDue running step

/-- A cycle with a trap. -/
theorem of_raises {t : Trap} (raises : m.Raises p t m₁) (arrived : List Arrival)
    (dropped : Queue) :
    Next ⟨⟨m, arrived, dropped⟩, []⟩ ⟨⟨(m₁.handleTrap t).2, arrived, dropped⟩,
      ((m₁.handleTrap t).1.map fun cause => .phases cause Phase.all).toList ++
        [.closeCycle p.pid]⟩ := by
  obtain ⟨running, m₀, advance, rfl, raised⟩ := raises
  have step : m.stepRunning = .ok (m₀.scanIfDue.handleTrap t) := by
    simp only [Machine.stepRunning, advance, raised, bind, Except.bind, pure, Except.pure]
  exact .busyCycle running step

end Moment.Next

/-- Two configurations that differ only in what is recorded, in when deadlocks are looked for and in
when ended processes are dropped, and a workload for both. -/
structure Comparison (σ : Type) where
  config : Config
  config' : Config
  same : config'.unobserved = config.unobserved
  workload : σ
  logLevel : Option Level
  logLevel' : Option Level

namespace Comparison

/-- A moment of the first run. -/
def First (k : Comparison σ) : Moment σ → Prop :=
  Moment.Reachable (.start k.config k.workload k.logLevel)

/-- A moment of the second run. -/
def Second (k : Comparison σ) : Moment σ → Prop :=
  Moment.Reachable (.start k.config' k.workload k.logLevel')

/-- All processes have different numbers, and those with a rendezvous plan come in pairs. -/
def Orderly (k : Comparison σ) : Prop := ∀ mo, k.First mo →
  Arrival.Distinct mo.ledger.arrived ∧ ∀ a ∈ mo.ledger.arrived, a.Coupled

/-- The two runs have come to these machines, have the same duties left and mirror each other. -/
def Twins (k : Comparison σ) (pending : List Duty) (m m' : Machine σ) : Prop :=
  ∃ arrived dropped dropped', k.First ⟨⟨m, arrived, dropped⟩, pending⟩ ∧
    k.Second ⟨⟨m', arrived, dropped'⟩, pending⟩ ∧
    Ledger.Mirrors ⟨m, arrived, dropped⟩ ⟨m', arrived, dropped'⟩

variable {k : Comparison σ}

theorem Orderly.order (orderly : k.Orderly) {mo mo' : Moment σ} (first : k.First mo)
    (second : k.Second mo') (same : mo'.ledger.arrived = mo.ledger.arrived) :
    mo.ledger.InOrder ∧ mo'.ledger.InOrder := by
  obtain ⟨distinct, coupled⟩ := orderly mo first
  refine ⟨Moment.inOrder_of_reachable first distinct coupled, ?_⟩
  rw [← same] at distinct coupled
  exact Moment.inOrder_of_reachable second distinct coupled

theorem First.comes {mo : Moment σ} (first : k.First mo) : mo.ledger.Comes :=
  ⟨_, Scene.fresh_start .., Scene.steps_of_reachable first⟩

theorem Second.comes {mo : Moment σ} (second : k.Second mo) : mo.ledger.Comes :=
  ⟨_, Scene.fresh_start .., Scene.steps_of_reachable second⟩

namespace Twins

variable {pending pending₁ : List Duty} {m m' m₁ m₁' : Machine σ}

theorem surface (h : k.Twins pending m m') : m'.surface = m.surface := by
  obtain ⟨arrived, dropped, dropped', -, -, mirrors⟩ := h
  exact mirrors.surface

theorem running (h : k.Twins pending m m') : m'.running = m.running :=
  congrArg (·.running) h.surface

/-- Nothing has happened yet. -/
theorem start (k : Comparison σ) : k.Twins [] (.start k.config k.workload k.logLevel)
    (.start k.config' k.workload k.logLevel') := by
  have surface : ∀ config logLevel, (Machine.start config k.workload logLevel).surface =
      (Machine.start config.unobserved k.workload none).surface := fun _ _ => rfl
  refine ⟨[], [], [], .refl, .refl, ?_, rfl, rfl, nofun, nofun, nofun, nofun⟩
  have same := congrArg (fun c => (Machine.start c k.workload none).surface) k.same
  exact (surface ..).trans (same.trans (surface ..).symm)

/-- Both runs go on without a change to pairs, locks and channels. -/
theorem parallel (h : k.Twins pending m m') (go : Machine.Parallel m m' m₁ m₁')
    (next : ∀ arrived dropped,
      Moment.Next ⟨⟨m, arrived, dropped⟩, pending⟩ ⟨⟨m₁, arrived, dropped⟩, pending₁⟩)
    (next' : ∀ arrived dropped,
      Moment.Next ⟨⟨m', arrived, dropped⟩, pending⟩ ⟨⟨m₁', arrived, dropped⟩, pending₁⟩) :
    k.Twins pending₁ m₁ m₁' := by
  obtain ⟨arrived, dropped, dropped', first, second, mirrors⟩ := h
  exact ⟨arrived, dropped, dropped', first.tail (next _ _), second.tail (next' _ _),
    mirrors.parallel go⟩

/-! ## Arrivals -/

theorem boot (h : k.Twins [] m m') (orderly : k.Orderly) :
    Outcomes (k.Twins []) m.boot m'.boot := by
  obtain ⟨arrived, dropped, dropped', first, second, mirrors⟩ := h
  have booted := mirrors.boot first.comes second.comes fun ⟨_, h⟩ =>
    (orderly _ (first.tail (.boot h))).1
  refine booted.mono fun m₁ m₁' h h' mirrors₁ => ?_
  have second₁ := second.tail (.boot h')
  rw [Ledger.Mirrors.nextArrivals_eq mirrors.surface] at second₁
  exact ⟨_, _, _, first.tail (.boot h), second₁, mirrors₁⟩

theorem request (h : k.Twins [] m m') (orderly : k.Orderly) :
    Outcomes (fun a b => k.Twins [] a.2 b.2) m.requestBatch m'.requestBatch := by
  obtain ⟨arrived, dropped, dropped', first, second, mirrors⟩ := h
  have asked := mirrors.requestBatch first.comes second.comes fun ⟨_, h⟩ =>
    (orderly _ (first.tail (.request h))).1
  refine asked.mono fun a b h h' got => ?_
  have second₁ := second.tail (.request h')
  rw [Ledger.Mirrors.nextArrivals_eq mirrors.surface] at second₁
  exact ⟨_, _, _, first.tail (.request h), second₁, got.2⟩

/-! ## Phases -/

/-- A phase is the same in both runs, but one may drop ended processes while the other keeps its
own. -/
theorem phase {cause : Cause} {phase : Phase} {rest : List Phase}
    (h : k.Twins (.phases cause (phase :: rest) :: pending) m m') (orderly : k.Orderly) :
    Outcomes (k.Twins (.phases cause rest :: pending)) (m.phase cause phase)
      (m'.phase cause phase) := by
  have surface := h.surface
  obtain ⟨arrived, dropped, dropped', first, second, mirrors⟩ := h
  obtain ⟨distinct, coupled⟩ := orderly _ first
  -- The books of the two runs after a phase, from what is known of the machines.
  have onward : ∀ {m₁ m₁' : Machine σ}, m.phase cause phase = .ok m₁ →
      m'.phase cause phase = .ok m₁' → m'.arrivalsOf phase = m.arrivalsOf phase →
      Ledger.Mirrors ⟨m₁, arrived ++ m.arrivalsOf phase, dropped ++ m.droppedBy phase⟩
        ⟨m₁', arrived ++ m.arrivalsOf phase, dropped' ++ m'.droppedBy phase⟩ →
      k.Twins (.phases cause rest :: pending) m₁ m₁' := by
    intro m₁ m₁' h h' same mirrors₁
    have second₁ := second.tail (.phase h')
    dsimp only at second₁
    rw [same] at second₁
    exact ⟨_, _, _, first.tail (.phase h), second₁, mirrors₁⟩
  have alike : ∀ {m₁ m₁' : Machine σ}, Machine.Parallel m m' m₁ m₁' →
      Ledger.Mirrors ⟨m₁, arrived ++ [], dropped ++ []⟩ ⟨m₁', arrived ++ [], dropped' ++ []⟩ := by
    intro m₁ m₁' go
    simp only [List.append_nil]
    exact mirrors.parallel go
  cases phase with
  | priorityReset =>
    have interval : m'.config.resetInterval = m.config.resetInterval :=
      congrArg (·.config.resetInterval) surface
    have since : m'.sinceReset = m.sinceReset := congrArg (·.sinceReset) surface
    have next := Ledger.Mirrors.nextArrivals_eq surface
    simp only [Machine.phase, Machine.arrivalsOf, Machine.droppedBy, interval, since, next]
      at onward alike ⊢
    by_cases due : m.config.resetInterval ≤ m.sinceReset
    · simp only [if_pos due] at onward ⊢
      have reset := mirrors.resetPriorities first.comes second.comes fun succeeds => by
        obtain ⟨m₁, h⟩ := succeeds
        have later := orderly _ (first.tail (.phase ((if_pos due).trans h)))
        simp only [Machine.arrivalsOf, if_pos due] at later
        exact later.1
      refine reset.mono fun m₁ m₁' h h' mirrors₁ => onward h h' trivial ?_
      simpa only [List.append_nil] using mirrors₁
    · simp only [if_neg due] at onward ⊢
      exact .ok (onward rfl rfl trivial (alike (Machine.parallel_refl surface)))
  | admission => exact .ok (onward rfl rfl rfl (alike (Machine.parallel_admitNewcomers surface)))
  | preemption =>
    refine .ok (onward rfl rfl rfl (alike ?_))
    split
    · exact Machine.parallel_preempt surface
    · exact Machine.parallel_refl surface
  | dispatching =>
    refine .ok (onward rfl rfl rfl (alike ?_))
    have same : m'.running = m.running := congrArg (·.running) surface
    rw [same]
    split
    · exact Machine.parallel_dispatch surface
    · exact Machine.parallel_refl surface
  | reaping =>
    refine .ok (onward rfl rfl rfl ?_)
    simp only [Machine.arrivalsOf, List.append_nil]
    have one := mirrors.reaping first.comes distinct coupled
    exact (one.symm.reaping second.comes distinct coupled).symm

theorem done {cause : Cause} (h : k.Twins (.phases cause [] :: pending) m m') :
    k.Twins pending m m' :=
  h.parallel (Machine.parallel_refl h.surface) (fun _ _ => .done) fun _ _ => .done

theorem schedule (h : k.Twins [] m m') (cause : Cause) :
    k.Twins [.phases cause Phase.all] m m' :=
  h.parallel (Machine.parallel_refl h.surface) (fun _ _ => .schedule cause) fun _ _ =>
    .schedule cause

/-! ## Interrupts -/

theorem timer (h : k.Twins pending m m') (hi : Duty.Interruptible pending) :
    k.Twins (.phases .timer Phase.all :: pending) m.raiseTimer m'.raiseTimer :=
  h.parallel (Machine.parallel_raiseTimer h.surface) (fun _ _ => .timer hi) fun _ _ => .timer hi

theorem completion (h : k.Twins pending m m') (hi : Duty.Interruptible pending)
    (device : DeviceId) :
    Outcomes (Option.Rel (k.Twins (.phases .ioCompletion Phase.all :: pending)))
      (m.completeIo device) (m'.completeIo device) := by
  refine (Machine.parallel_completeIo h.surface device).mono fun a b done done' same => ?_
  cases same with
  | none => exact .none
  | some go => exact .some (h.parallel go (fun _ _ => .completion hi done) fun _ _ =>
      .completion hi done')

/-! ## Cycles -/

theorem idleCycle (h : k.Twins [] m m') (idle : m.running = none) :
    k.Twins [.phases .idle Phase.all] m.beginCycle.countIdle.scanIfDue
      m'.beginCycle.countIdle.scanIfDue := by
  have begun := Machine.parallel_beginCycle h.surface
  have counted := Machine.parallel_countIdle begun.surface
  have scanned := Machine.parallel_scanIfDue counted.surface
  exact h.parallel (begun.trans (counted.trans scanned)) (fun _ _ => .idleCycle idle) fun _ _ =>
    .idleCycle (h.running.trans idle)

/-- The process of a cycle goes on or ends, in both runs alike. -/
theorem closeCycle {pid : Pid} (h : k.Twins (.closeCycle pid :: pending) m m') :
    (m.terminateIfDone pid = none ∧ m'.terminateIfDone pid = none ∧ k.Twins pending m m') ∨
      ∃ m₁ m₁', m.terminateIfDone pid = some m₁ ∧ m'.terminateIfDone pid = some m₁' ∧
        k.Twins (.phases .termination Phase.all :: pending) m₁ m₁' := by
  have whole := h
  obtain ⟨arrived, dropped, dropped', first, second, mirrors⟩ := h
  have same := mirrors.terminateIfDone pid
  generalize hm : m.terminateIfDone pid = end₁ at same ⊢
  generalize hm' : m'.terminateIfDone pid = end₁' at same ⊢
  cases same with
  | none =>
    exact .inl ⟨rfl, rfl, whole.parallel (Machine.parallel_refl whole.surface)
      (fun _ _ => .goOn hm) fun _ _ => .goOn hm'⟩
  | some mirrors₁ =>
    exact .inr ⟨_, _, rfl, rfl, _, _, _, first.tail (.terminate hm), second.tail (.terminate hm'),
      mirrors₁⟩

end Twins

/-- The running process of both runs has made a step. -/
structure Advanced (m m' m₁ m₁' : Machine σ) : Prop where
  left : m.beginCycle.advance = .ok m₁
  right : m'.beginCycle.advance = .ok m₁'
  go : Machine.Parallel m m' m₁.scanIfDue m₁'.scanIfDue

omit [Workload σ] in
theorem outcomes_advance {m m' : Machine σ} (same : m'.surface = m.surface) :
    Outcomes (Advanced m m') m.beginCycle.advance m'.beginCycle.advance := by
  have begun := Machine.parallel_beginCycle same
  refine (Machine.parallel_advance begun.surface).mono fun m₁ m₁' h h' advanced => ?_
  exact ⟨h, h', begun.trans (advanced.trans (Machine.parallel_scanIfDue advanced.surface))⟩

namespace Twins

section

variable {m m' m₁ m₁' : Machine σ} {p : Proc} (h : k.Twins [] m m') (orderly : k.Orderly)
  (running : m.running = some p) (advanced : Advanced m m' m₁ m₁')

include h running advanced

include orderly in
/-- The running process raises the same trap in both runs. -/
theorem pendingTrap : Outcomes (fun t t' => t' = t) m₁.scanIfDue.pendingTrap
    m₁'.scanIfDue.pendingTrap := by
  have running' := h.running.trans running
  obtain ⟨arrived, dropped, dropped', first, second, mirrors⟩ := h
  obtain ⟨order, order'⟩ := orderly.order first second rfl
  obtain ⟨left, -, go⟩ := advanced
  obtain ⟨q, pc, stepped, advances⟩ := Scene.exists_of_advance (m := m.beginCycle) running left
  have locks := mirrors.map_lock_find?_eq order order' (order.pid_notMem_goneIds running)
    (order'.pid_notMem_goneIds running')
  rw [← show q.pid = p.pid from advances.pid_eq] at locks
  have current : m₁.scanIfDue.running = some q :=
    (congrArg (·.running) (Machine.surface_scanIfDue m₁)).trans (congrArg (·.running) stepped)
  have current' : m₁'.scanIfDue.running = some q :=
    (congrArg (·.running) go.surface).trans current
  have counter : m₁'.scanIfDue.cpuPc = m₁.scanIfDue.cpuPc := congrArg (·.cpuPc) go.surface
  have pairs : m₁.scanIfDue.pairs = m.pairs := congrArg (·.2.1) go.left
  have pairs' : m₁'.scanIfDue.pairs = m'.pairs := congrArg (·.2.1) go.right
  simp only [Machine.pendingTrap, current, current', counter, pairs, pairs',
    Proc.trapAt_congr locks]
  exact Machine.outcomes_attempt ..

/-- The cycle goes on without a trap. -/
theorem noTrap (quiet : m₁.scanIfDue.pendingTrap = .ok none)
    (quiet' : m₁'.scanIfDue.pendingTrap = .ok none) :
    k.Twins [.closeCycle p.pid] m₁.scanIfDue m₁'.scanIfDue := by
  exact h.parallel advanced.go (fun _ _ => .of_advance running advanced.left quiet _ _) fun _ _ =>
    .of_advance (h.running.trans running) advanced.right quiet' _ _

include orderly in
/-- The trap of a cycle is handled in both runs alike. -/
theorem trap {t : Trap} (raised : m₁.scanIfDue.pendingTrap = .ok (some t))
    (raised' : m₁'.scanIfDue.pendingTrap = .ok (some t)) :
    (m₁'.scanIfDue.handleTrap t).1 = (m₁.scanIfDue.handleTrap t).1 ∧
      k.Twins (((m₁.scanIfDue.handleTrap t).1.map fun cause => .phases cause Phase.all).toList ++
        [.closeCycle p.pid]) (m₁.scanIfDue.handleTrap t).2 (m₁'.scanIfDue.handleTrap t).2 := by
  have raises : m.Raises p t m₁.scanIfDue := ⟨running, m₁, advanced.left, rfl, raised⟩
  have raises' : m'.Raises p t m₁'.scanIfDue :=
    ⟨h.running.trans running, m₁', advanced.right, rfl, raised'⟩
  obtain ⟨arrived, dropped, dropped', first, second, mirrors⟩ := h
  obtain ⟨order, order'⟩ := orderly.order first second rfl
  have locks : m₁.scanIfDue.locks = m.locks := congrArg (·.2.1) raises.shared_eq
  have locks' : m₁'.scanIfDue.locks = m'.locks := congrArg (·.2.1) raises'.shared_eq
  obtain ⟨answer, mirrors₁⟩ := (mirrors.parallel advanced.go).handleTrap
    (locks ▸ order.tidy.locks) (locks' ▸ order'.tidy.locks)
    (Scene.finds_of_raises order.paired order.reached raises)
    (Scene.finds_of_raises order'.paired order'.reached raises')
  have second₁ := second.tail (.of_raises raises' _ _)
  rw [answer] at second₁
  exact ⟨answer, _, _, _, first.tail (.of_raises raises _ _), second₁, mirrors₁⟩

end

end Twins
end Comparison
end Mlfq
