import Mlfq.Proofs.Story.Accounts

/-! # Cycle accounting

At every moment of a run the number of cycles that a process has had follows from its counters and
from the trace, and a compute-bound process ends after a fixed number of its own cycles. -/

namespace Mlfq

open Queue (cores)

variable {σ : Type}

/-! ## Records -/

/-- Where a process stands in its life while its record is in a place. -/
def Place.station : Place → Station
  | .newcomers | .ready _ => .line
  | .cpu => .cpu
  | .device _ => .device
  | .tableLock _ | .channelLock _ => .lock
  | .fill _ | .empty _ => .condition
  | .zombies => .ended

namespace Ledger

variable (l : Ledger σ)

/-- The record is in some place or was dropped. -/
def Keeps (r : Proc) : Prop := (∃ place, r ∈ l.machine.resumingAt place) ∨ r ∈ l.dropped

/-- The process with this record has ended. -/
def Ended (r : Proc) : Prop := r ∈ l.machine.zombies ∨ r ∈ l.dropped

variable {l} {r : Proc}

theorem mem_roll_of_mem_resumingAt (tidy : l.scene.Tidy) {place : Place}
    (h : r ∈ l.machine.resumingAt place) :
    (place.station, r.core) ∈ l.machine.roll l.dropped := by
  have mem := Queue.core_mem_cores (Scene.mem_gathered tidy h)
  rw [Machine.roll, Station.mem_roll]
  cases place with
  | newcomers | tableLock | zombies => exact Multiset.mem_add.2 (.inl mem)
  | ready | channelLock => exact Multiset.mem_add.2 (.inr mem)
  | cpu | device | fill | empty => exact mem

theorem mem_roll_of_ended (h : l.Ended r) : (.ended, r.core) ∈ l.machine.roll l.dropped :=
  Station.mem_roll.2 (Multiset.mem_add.2 (h.imp Queue.core_mem_cores Queue.core_mem_cores))

/-- A record that is kept is on the roll. -/
theorem exists_station_of_keeps (tidy : l.scene.Tidy) (h : l.Keeps r) :
    ∃ st, (st, r.core) ∈ l.machine.roll l.dropped ∧ (st = .ended → l.Ended r) := by
  rcases h with ⟨place, h⟩ | gone
  · refine ⟨place.station, mem_roll_of_mem_resumingAt tidy h, fun ended => ?_⟩
    cases place with
    | zombies => exact .inl h
    | _ => cases ended
  · exact ⟨.ended, mem_roll_of_ended (.inr gone), fun _ => .inr gone⟩

/-- Somebody who is in one place has a record. -/
theorem exists_keeps {pid : Pid} (h : pid ∈ l.dropped.map (·.pid) ∨
    ∃ place, l.machine.KeepsAt pid place) : ∃ r, l.Keeps r ∧ r.pid = pid := by
  rcases h with gone | ⟨place, one, -⟩
  · obtain ⟨r, hr, own⟩ := List.mem_map.1 gone
    exact ⟨r, .inr hr, own⟩
  · have mem : pid ∈ (l.machine.recordsAt place).map (·.pid) := List.count_pos_iff.1 (by omega)
    rw [← Machine.map_pid_resumingAt] at mem
    obtain ⟨r, hr, own⟩ := List.mem_map.1 mem
    exact ⟨r, .inl ⟨place, hr⟩, own⟩

end Ledger

/-! ## Accounts -/

namespace Chronicle

variable (c : Chronicle σ)

/-- The record `r` of a process and the trace account for its cycles. -/
def Balances (r : Proc) : Prop :=
  c.ticks r.pid + (marks r.pid c.events).count .completed =
    r.wraps * (r.maxPc + 1) + r.pc + (marks r.pid c.events).count .blocked +
      2 * (marks r.pid c.events).count .waited

/-- The process `q` ends after so many cycles of its own, and no cycle of it fails. -/
structure EndsInTime (q : Proc) : Prop where
  ticks_le : c.ticks q.pid ≤ q.terminateAfter * (q.maxPc + 1)
  ended_iff : Duty.Interruptible c.moment.pending →
    ∀ r, c.moment.ledger.Keeps r → r.pid = q.pid →
      (c.moment.ledger.Ended r ↔ c.ticks q.pid = q.terminateAfter * (q.maxPc + 1))
  /-- The cycle that comes now is a step without a trap. -/
  goesOn : c.moment.pending = [] → c.machine.runningPid? = some q.pid → q.maxPc + 1 < Word.max →
    q.terminateAfter ≤ Word.max → ∃ m, c.machine.stepRunning = .ok (none, m)

end Chronicle

/-- A compute-bound process of the library has no plan. -/
theorem Arrival.Library.plan_of_compute {a : Arrival} (h : a.Library) {p : Proc}
    (hp : p ∈ a.procs) (compute : p.kind = .computeBound) : p.plan = .none := by
  cases h with
  | compute =>
    rw [List.mem_singleton.1 hp]
    rfl
  | io =>
    rw [List.mem_singleton.1 hp] at compute
    cases compute
  | mutexPair | rendezvousPair =>
    rcases List.mem_pair.1 hp with rfl | rfl <;> cases compute

/-- The step of a process without traps succeeds while its counters are not at their ends. -/
theorem Machine.exists_stepRunning {m : Machine σ} {p : Proc} (running : m.running = some p)
    (planless : p.plan = .none) (pc : m.cpuPc < Word.max) (wraps : p.wraps < Word.max) :
    ∃ m', m.stepRunning = .ok (none, m') := by
  have advances : ∃ m₁ p₁, m.beginCycle.advance = .ok m₁ ∧ m₁.running = some p₁ ∧
      p₁.plan = .none := by
    have begun : m.beginCycle.running = some p := running
    have counter : m.beginCycle.cpuPc = m.cpuPc := rfl
    unfold advance
    simp only [begun, counter, attempt, Word.succ_of_lt pc, Word.succ_of_lt wraps, bind,
      Except.bind]
    split
    · exact ⟨_, p, rfl, rfl, planless⟩
    · exact ⟨_, { p with wraps := p.wraps + 1 }, rfl, rfl, planless⟩
  obtain ⟨m₁, p₁, done, running₁, planless₁⟩ := advances
  obtain ⟨same, -⟩ := Scene.scanIfDue_spec m₁ p₁ [] []
  have quiet : m₁.scanIfDue.pendingTrap = .ok none := by
    simp only [pendingTrap, same, running₁, Proc.trapAt, planless₁, attempt]
  refine ⟨m₁.scanIfDue, ?_⟩
  simp only [stepRunning, done, quiet, bind, Except.bind, pure, Except.pure]

/-! ## Runs -/

variable {c : Chronicle σ}

/-- Everybody who arrives from the library is new. -/
theorem Story.allNew_of_library (library : ∀ a ∈ c.moment.ledger.arrived, a.Library) :
    c.story.AllNew := by
  intro p hp
  obtain ⟨a, ha, hp⟩ := List.mem_flatMap.1 hp
  obtain ⟨pc, wraps, -⟩ := (library a ha).new_of_mem hp
  exact ⟨pc, wraps⟩

/-- A process without traps that is to end does so in time. -/
theorem Chronicle.endsInTime_of_timed {q : Proc} (tidy : c.moment.ledger.scene.Tidy)
    (timed : ∀ (st : Station) (r : Proc), (st, r.core) ∈ c.story.roll → r.pid = q.pid →
      r.plan = .none ∧ r.terminateAfter = q.terminateAfter ∧ r.maxPc = q.maxPc ∧
        c.story.Timed (st, r.core))
    (kept : ∃ r, c.moment.ledger.Keeps r ∧ r.pid = q.pid) : c.EndsInTime q := by
  refine ⟨?_, fun rest r kept pid => ⟨fun ended => ?_, fun all => ?_⟩, fun rest own pc wraps => ?_⟩
  · obtain ⟨r, kept, pid⟩ := kept
    obtain ⟨st, mem, -⟩ := Ledger.exists_station_of_keeps tidy kept
    obtain ⟨-, limit, maxPc, timed⟩ := timed st r mem pid
    rw [← limit, ← maxPc, ← pid]
    exact timed.ticks_le.1
  · have mem := Ledger.mem_roll_of_ended ended
    obtain ⟨-, limit, maxPc, timed⟩ := timed .ended r mem pid
    rw [← limit, ← maxPc, ← pid]
    exact timed.ticks_le.2 rfl
  · obtain ⟨st, mem, past⟩ := Ledger.exists_station_of_keeps tidy kept
    obtain ⟨-, limit, maxPc, timed⟩ := timed st r mem pid
    rw [← limit, ← maxPc, ← pid] at all
    exact past ((timed.ended_iff (Story.due_of_interruptible rest)).2 all)
  · obtain ⟨p, running, pid⟩ := Option.map_eq_some_iff.1 own
    have mem : (.cpu, { p with pc := c.machine.cpuPc }.core) ∈ c.story.roll := by
      refine Station.mem_roll.2 (Queue.core_mem_cores ?_)
      rw [Machine.onCpu, running]
      exact List.mem_singleton_self _
    obtain ⟨planless, limit, maxPc, timed⟩ := timed .cpu _ mem pid
    have idle : c.story.due = none := by
      rw [Chronicle.story, rest]
      rfl
    have lt : p.wraps < p.terminateAfter := timed.wraps_lt Station.noConfusion (.inl idle)
    have le : c.machine.cpuPc ≤ p.maxPc := timed.pc_le
    have limit : p.terminateAfter = q.terminateAfter := limit
    have maxPc : p.maxPc = q.maxPc := maxPc
    exact Machine.exists_stepRunning running planless (by omega) (by omega)

/-- Whoever arrives from the library is kept, or was dropped. -/
theorem Moment.exists_keeps_of_library [Workload σ] [Workload.Library σ] {config : Config}
    {workload : σ} {logLevel : Option Level} {mo : Moment σ}
    (reachable : Moment.Reachable (.start config workload logLevel) mo) {q : Proc}
    (arrived : q ∈ mo.ledger.arrived.flatMap Arrival.procs) :
    ∃ r, mo.ledger.Keeps r ∧ r.pid = q.pid := by
  obtain ⟨library, distinct⟩ := Moment.distinct_of_library reachable
  have coupled : ∀ a ∈ mo.ledger.arrived, a.Coupled := fun a ha => (library a ha).coupled
  have conserves := Moment.conserves_of_distinct reachable distinct coupled
  apply Ledger.exists_keeps
  exact (conserves.arrived q.pid (List.mem_map_of_mem arrived)).imp And.left And.right

/-- At every moment of a run of a library workload, each process that has arrived is kept or was
dropped, and its counters and the trace account for its cycles. A compute-bound process that is to
end does so after as many cycles of its own as its wraps take. -/
theorem accounts_of_reachable [Workload σ] [Workload.Library σ] {config : Config} {workload : σ}
    {logLevel : Option Level}
    (reachable : Chronicle.Reachable (.start config workload logLevel) c) {q : Proc}
    (arrived : q ∈ c.moment.ledger.arrived.flatMap Arrival.procs) :
    (∃ r, c.moment.ledger.Keeps r ∧ r.pid = q.pid) ∧
    (config.recordTrace = true → q.plan.asksInTime q.maxPc = true →
      ∀ r, c.moment.ledger.Keeps r → r.pid = q.pid → c.Balances r) ∧
    (q.kind = .computeBound → 0 < q.terminateAfter → c.EndsInTime q) := by
  obtain ⟨library, distinct⟩ := Moment.distinct_of_library reachable.moment
  obtain ⟨a, ha, hq⟩ := List.mem_flatMap.1 arrived
  have tidy := Story.tidy_of_reachable reachable
  have steps := Story.steps_of_reachable reachable
  have proper := (Story.proper_opening config).steps steps
  have different := Story.distinct_story (c := c) distinct
  have new := Story.allNew_of_library library
  have outline : ∀ (st : Station) (r : Proc), (st, r.core) ∈ c.story.roll → r.pid = q.pid →
      q.outline = r.core.outline :=
    fun st r mem pid => (proper.outline_eq different mem arrived pid).symm
  have kept := Moment.exists_keeps_of_library reachable.moment arrived
  refine ⟨kept, fun traced inTime r kept pid => ?_, fun compute ends => ?_⟩
  · obtain ⟨st, mem, -⟩ := Ledger.exists_station_of_keeps tidy kept
    have steady := ((library a ha).new_of_mem hq).2.2 inTime
    have booked := (steps.balanced traced different new).booked _ mem
      (Proc.steady_of_outline_eq (outline st r mem pid) steady)
    have balance := booked.balance
    simp only [Story.stepped, Story.setBack, Proc.progress, ← Nat.add_assoc] at balance
    exact balance
  · have planless := (library a ha).plan_of_compute hq compute
    refine Chronicle.endsInTime_of_timed tidy (fun st r mem pid => ?_) kept
    have same := outline st r mem pid
    have plan : r.core.plan = .none := by
      rw [← planless]
      exact Proc.plan_eq_of_outline_eq same.symm fun _ _ bound => by simp [planless] at bound
    have limit : r.core.terminateAfter = q.terminateAfter := by
      rw [← Proc.terminateAfter_outline, ← same, q.terminateAfter_outline]
    have maxPc : r.core.maxPc = q.maxPc := by
      rw [← Proc.maxPc_outline, ← same, q.maxPc_outline]
    exact ⟨plan, limit, maxPc, (steps.timely different new).timed _ mem plan (limit ▸ ends)⟩

/-- Whoever is kept has arrived. -/
theorem Chronicle.Reachable.exists_arrived_of_keeps [Workload σ] {config : Config} {workload : σ}
    {logLevel : Option Level}
    (reachable : Chronicle.Reachable (.start config workload logLevel) c) {r : Proc}
    (kept : c.moment.ledger.Keeps r) :
    ∃ q ∈ c.moment.ledger.arrived.flatMap Arrival.procs, q.outline = r.outline := by
  have proper := (Story.proper_opening config).steps (Story.steps_of_reachable reachable)
  obtain ⟨st, mem, -⟩ := Ledger.exists_station_of_keeps (Story.tidy_of_reachable reachable) kept
  exact proper.exists_arrived mem

/-- A run in which an I/O-bound process goes on after a request while a compute-bound one has
wrapped twice and ended, with timer interrupts on the way. -/
theorem accounts_of_reachable_ended : ∃ c : Chronicle ScriptedWorkload,
    Chronicle.Reachable (.start {} ⟨[[.io 9 0 [[3]], .compute 1 2]]⟩ none) c ∧
    (∃ p, c.machine.running = some p ∧ c.Balances { p with pc := c.machine.cpuPc } ∧
      (marks p.pid c.events).count .completed = 1) ∧
    ∃ z ∈ c.machine.zombies, c.ticks z.pid = 4 := by
  have run : ((Machine.start {}
      (⟨[[.io 9 0 [[3]], .compute 1 2]]⟩ : ScriptedWorkload) none).performAll
        [.boot, .tick [], .tick [], .tick [], .tick [[.timer]], .tick [],
          .timerInterrupt [[], [.timer]], .tick [], .ioInterrupt ⟨0⟩ [], .tick [],
          .tick []]).toOption.any
      (fun m => m.running.any (fun p => p.plan.asksInTime p.maxPc &&
          (marks p.pid m.journal.trace.events).count .completed = 1) &&
        m.zombies.any fun z => z.kind = .computeBound && z.maxPc = 1 && z.terminateAfter = 2) =
      true := by
    decide +kernel
  obtain ⟨mo, moments, rest, test⟩ := Moment.exists_reachable_of_performAll run
  obtain ⟨cycles, reachable⟩ := Chronicle.exists_reachable moments
  simp only [Bool.and_eq_true, Option.any_eq_true, List.any_eq_true, decide_eq_true_eq] at test
  obtain ⟨⟨p, running, inTime, completed⟩, z, hz, ⟨compute, maxPc⟩, limit⟩ := test
  refine ⟨⟨mo, cycles⟩, reachable, ⟨p, running, ?_, completed⟩, z, hz, ?_⟩
  · have kept : mo.ledger.Keeps { p with pc := mo.ledger.machine.cpuPc } := by
      refine .inl ⟨.cpu, ?_⟩
      rw [Machine.resumingAt, Machine.onCpu, running]
      exact List.mem_singleton_self _
    obtain ⟨q, arrived, outline⟩ := reachable.exists_arrived_of_keeps kept
    have plan : q.plan.unbound = p.plan.unbound := congrArg (·.plan) outline
    have same : q.maxPc = p.maxPc := congrArg (·.maxPc) outline
    rw [← TrapPlan.asksInTime_unbound, ← plan, ← same, TrapPlan.asksInTime_unbound] at inTime
    exact (accounts_of_reachable reachable arrived).2.1 rfl inTime _ kept
      (congrArg (·.pid) outline).symm
  · have kept : mo.ledger.Keeps z := .inl ⟨.zombies, hz⟩
    obtain ⟨q, arrived, outline⟩ := reachable.exists_arrived_of_keeps kept
    have kind : q.kind = z.kind := congrArg (·.kind) outline
    have pid : q.pid = z.pid := congrArg (·.pid) outline
    have largest : q.maxPc = z.maxPc := congrArg (·.maxPc) outline
    have ends : q.terminateAfter = z.terminateAfter := congrArg (·.terminateAfter) outline
    have inTime := (accounts_of_reachable reachable arrived).2.2 (kind.trans compute) (by omega)
    have whole := (inTime.ended_iff (rest ▸ trivial) z kept pid.symm).1 (.inl hz)
    rw [pid, largest, ends, maxPc, limit] at whole
    exact whole

end Mlfq
