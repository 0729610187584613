import Mlfq.Proofs.Headcount
import Mlfq.Proofs.Reconciliation
import Mlfq.Proofs.Run.Chronicle
import Mlfq.Proofs.Story.Watch

/-! # All accountings of a run agree

The figures of the machine, the census, the deadlock monitor, the metrics, the trace and the queues
themselves tell of one and the same run. -/

namespace Mlfq

variable {σ : Type}

/-- All accountings of a machine agree. -/
structure Machine.Tallies (m : Machine σ) : Prop where
  /-- Every counter shows how many of its events are in the trace. -/
  counters : ∀ c : Counter, c.reading m = m.journal.trace.events.countP c.counts
  /-- So does every count by label. -/
  labels : ∀ label, m.journal.metrics.events.count label =
    m.journal.trace.events.countP (label = ·.label)
  /-- The census knows how many processes of each kind have not ended. -/
  live : ∀ kind, (m.census.tally kind).live = m.alive.headcount kind
  /-- Every deadlock that the monitor has found is told once. -/
  deadlocks : m.monitor.distinct = m.journal.trace.deadlockCount
  deadlocked : m.monitor.deadlocked = true ↔ 0 < m.monitor.distinct
  zombies : m.journal.metrics.zombieLength = m.zombies.length
  /-- The trace is in the order of the cycles. -/
  ordered : m.journal.trace.entries.Pairwise fun e e' => e.iteration ≤ e'.iteration

/-- The reports are the events of deadlocks. -/
theorem length_reports (t : Trace) : (reports t.events).length = t.deadlockCount := by
  rw [reports, List.length_filterMap_eq_countP, Trace.deadlockCount]
  apply List.countP_congr
  intro e _
  cases e <;> simp [Event.pair?]

namespace Moment

variable [Workload σ] {config : Config} {workload : σ} {logLevel : Option Level} {mo : Moment σ}

/-- The monitor remembers as many deadlocks as the trace tells of, and says so. -/
theorem monitor_of_reachable (reachable : Reachable (.start config workload logLevel) mo)
    (tracing : config.recordTrace = true) :
    mo.ledger.machine.monitor.distinct = mo.ledger.machine.journal.trace.deadlockCount ∧
      mo.ledger.machine.monitor.Honest := by
  obtain ⟨cycles, chronicle⟩ := Chronicle.exists_reachable reachable
  have steps := Story.steps_of_reachable chronicle
  have candid := steps.candid (Story.candid_opening config)
  have told := candid.reports (steps.settings_eq.1.trans tracing)
  have honest := steps.honest (iff_of_false nofun fun none => none rfl)
  refine ⟨?_, honest⟩
  rw [← length_reports, DeadlockMonitor.distinct, ← List.length_reverse]
  exact congrArg List.length told.symm

end Moment

/-- At every moment of every run that is traced, all accountings agree, provided that all processes
have different numbers and that those with a channel arrive in rendezvous pairs. -/
theorem tallies_of_reachable [Workload σ] {config : Config} {workload : σ}
    {logLevel : Option Level} {mo : Moment σ}
    (reachable : Moment.Reachable (.start config workload logLevel) mo)
    (tracing : config.recordTrace = true) (distinct : Arrival.Distinct mo.ledger.arrived)
    (coupled : ∀ a ∈ mo.ledger.arrived, a.Coupled) : mo.ledger.machine.Tallies := by
  have reconciled := Moment.reconciled_of_reachable reachable tracing
  obtain ⟨deadlocks, honest⟩ := Moment.monitor_of_reachable reachable tracing
  exact {
    counters := reconciled.counters
    labels := reconciled.labels
    live := Moment.live_eq_headcount reachable distinct coupled
    deadlocks
    deadlocked := honest.trans List.length_pos_iff.symm
    zombies := reconciled.gauge
    ordered := reconciled.ordered }

/-- A process that ends soon, a mutex pair in reverse order and a process that makes a request. -/
def ScriptedWorkload.eventful : ScriptedWorkload :=
  ⟨[[.compute 1 1, .mutexPair 600 true, .io 9 0 [[3]]]]⟩

/-- Short intervals, and a lone process that has ended is dropped. -/
def Config.eventful : Config :=
  { quantumStep := 0, resetMultiple := 1, zombieThreshold := 1, scanInterval := 1 }

/-- The first process ends, the pair parks crosswise, and a request is finished. -/
def Command.eventful : List Command :=
  [.boot] ++ List.replicate 8 (.tick []) ++ [.timerInterrupt []] ++
    List.replicate 12 (.tick []) ++ [.ioInterrupt ⟨0⟩ []]

/-- A run in which everything happens that is counted. -/
theorem tallies_of_reachable_eventful : ∃ mo : Moment ScriptedWorkload,
    Moment.Reachable (.start .eventful .eventful none) mo ∧ Config.eventful.recordTrace = true ∧
    Arrival.Distinct mo.ledger.arrived ∧ (∀ a ∈ mo.ledger.arrived, a.Coupled) ∧
    mo.ledger.machine.Tallies ∧
    ∀ c ∈ [Counter.dispatches, .quantumExpiries, .ioCompletions, .priorityResets,
      .created .ioBound, .terminated .computeBound, .deadlocksTotal],
      0 < c.reading mo.ledger.machine := by
  have run : ((Machine.start .eventful ScriptedWorkload.eventful none).performAll
      Command.eventful).toOption.any (fun m =>
        [Counter.dispatches, .quantumExpiries, .ioCompletions, .priorityResets,
          .created .ioBound, .terminated .computeBound, .deadlocksTotal].all
            fun c => 0 < c.reading m) = true := by decide +kernel
  obtain ⟨mo, reachable, -, happened⟩ := Moment.exists_reachable_of_performAll run
  obtain ⟨library, distinct⟩ := Moment.distinct_of_library reachable
  have coupled : ∀ a ∈ mo.ledger.arrived, a.Coupled := fun a ha => (library a ha).coupled
  refine ⟨mo, reachable, rfl, distinct, coupled,
    tallies_of_reachable reachable rfl distinct coupled, fun c hc => ?_⟩
  exact of_decide_eq_true (List.all_eq_true.1 happened c hc)

end Mlfq
