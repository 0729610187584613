import Mlfq.Proofs.Deadlock.Standstill
import Mlfq.Proofs.Story.Watch

/-! # Deadlocks are permanent, and are reported once and in time

A mutex pair in deadlock stays as it is for the rest of the run. The first scan after that reports
it, no other scan does so again, and scans are made at fixed intervals. -/

namespace Mlfq

variable {σ : Type}

/-- Both members of a mutex pair of the machine are parked on the locks of the pair. -/
def Machine.Deadlocked (m : Machine σ) (q : MutexPair) : Prop :=
  q ∈ m.pairs.pairs ∧ q.Deadlocked m.locks

namespace Chronicle

section

variable (c : Chronicle σ)

/-- The number of scans so far. -/
def scans : Nat := c.machine.monitor.scans

/-- The dispatches and the idle cycles so far. -/
def turns : Nat := c.machine.dispatches + c.idleTicks

/-- The number of times that the deadlock of a left and a right member was reported. -/
def reportsOf (x : Pid × Pid) : Nat := (reports c.events).count x

end

/-- How the pair `q`, in deadlock at the moment `c`, stands at the later moment `c'`. -/
structure Endures (config : Config) (c c' : Chronicle σ) (q : MutexPair) : Prop where
  deadlocked : c'.machine.Deadlocked q
  /-- The locks have the same holders and waiters. -/
  locks : ∀ id ∈ q.locks, c'.machine.locks.get? id = c.machine.locks.get? id
  /-- A scan would return the pair. -/
  found : ∀ monitor : DeadlockMonitor,
    ∃ d ∈ (monitor.scan c'.machine.pairs c'.machine.locks).1, d.Names q
  reported : config.recordTrace = true → c.scans < c'.scans →
    c'.reportsOf (q.left.pid, q.right.pid) = 1
  /-- A pair is reported while nobody runs for as many cycles as the interval has. If that is zero,
  it takes one cycle. -/
  inTime : config.recordTrace = true → c.machine.running = none →
    c'.machine.dispatches = c.machine.dispatches →
    c.machine.iteration + max 1 config.scanInterval ≤ c'.machine.iteration →
    c'.reportsOf (q.left.pid, q.right.pid) = 1

variable [Workload σ]

/-- A scan has just been made, or the run is about to begin. -/
def JustScanned (m : Machine σ) (c : Chronicle σ) : Prop :=
  c = ⟨⟨{ machine := m }, []⟩, []⟩ ∨ ∃ c₀, Reachable m c₀ ∧ Next c₀ c ∧ c₀.scans < c.scans

/-- What the deadlock monitor of machine `m` does between the moment `c` and the later moment
`c'`. -/
structure KeepsWatch (m : Machine σ) (c c' : Chronicle σ) : Prop where
  endures : ∀ q, c.machine.Deadlocked q → Endures m.config c c' q
  once : m.config.recordTrace = true → ∀ x, c'.reportsOf x ≤ 1
  flag : c.machine.monitor.deadlocked = true → c'.machine.monitor.deadlocked = true
  /-- After a scan the next one is made in the first cycle that sees so many dispatches and idle
  cycles, itself included. -/
  cadence : JustScanned m c → c'.scans = c.scans → ∀ c'', Next c' c'' →
    c''.scans = c'.scans +
      if c'.machine.iteration < c''.machine.iteration ∧
        c.turns + m.config.scanInterval ≤ c''.turns then 1 else 0

end Chronicle

variable [Workload σ] {config : Config} {workload : σ} {logLevel : Option Level}
  {c c' c'' : Chronicle σ}

/-- After a scan nothing has been counted toward the next one. -/
theorem Chronicle.JustScanned.sinceScan_eq_zero
    (h : JustScanned (.start config workload logLevel) c) : c.story.sinceScan = 0 := by
  rcases h with rfl | ⟨c₀, reachable, next, scanned⟩
  · rfl
  · exact (Story.next_of_next (Story.tidy_of_reachable reachable) next).sinceScan_eq_zero scanned

/-- Between two scans the counter tells the dispatches and the idle cycles. -/
theorem Chronicle.scans_eq_of_next
    (reachable : Chronicle.Reachable (.start config workload logLevel) c)
    (later : Chronicle.Later c c') (start : c.story.sinceScan = 0)
    (unscanned : c'.scans = c.scans) (next : Chronicle.Next c' c'') :
    c''.scans = c'.scans +
      if c'.machine.iteration < c''.machine.iteration ∧
        c.turns + config.scanInterval ≤ c''.turns then 1 else 0 := by
  have reachable' := reachable.trans later
  have interval : c'.story.scanInterval = config.scanInterval :=
    (Story.steps_of_reachable reachable').settings_eq.2
  have counted : c'.story.sinceScan + c.turns = c.story.sinceScan + c'.turns :=
    (Story.steps_of_later reachable later).sinceScan_add.2 unscanned
  have late : c'.story.scanInterval + c'.turns ≤ c'.story.sinceScan + c''.turns ↔
      c.turns + config.scanInterval ≤ c''.turns := by omega
  have step := (Story.next_of_next (Story.tidy_of_reachable reachable') next).scans_eq
  exact step.trans (congrArg (c'.scans + ·) (if_congr (and_congr_right' late) rfl rfl))

/-- The reports in the trace are the pairs that the monitor remembers, each of them once. -/
theorem Chronicle.reports_of_reachable
    (reachable : Chronicle.Reachable (.start config workload logLevel) c)
    (recording : config.recordTrace = true) :
    c.machine.monitor.reported.Nodup ∧
      ∀ x, c.reportsOf x = c.machine.monitor.reported.count x := by
  have steps := Story.steps_of_reachable reachable
  have candid := steps.candid (Story.candid_opening config)
  have tracing : c.story.tracing = true := steps.settings_eq.1.trans recording
  have reports : reports c.events = c.machine.monitor.reported.reverse := candid.reports tracing
  refine ⟨candid.nodup, fun x => ?_⟩
  rw [Chronicle.reportsOf, reports, List.count_reverse]

/-- What becomes of a deadlock. -/
theorem Chronicle.endures_of_later
    (reachable : Chronicle.Reachable (.start config workload logLevel) c)
    (later : Chronicle.Later c c') (distinct : Arrival.Distinct c'.moment.ledger.arrived)
    {q : MutexPair} (deadlocked : c.machine.Deadlocked q) : Endures config c c' q := by
  have fresh := Scene.fresh_start config workload logLevel
  have earlier := Scene.steps_of_reachable reachable.moment
  have steps := Scene.steps_of_path later.moments
  have stuck : c.moment.ledger.scene.Stuck q := ⟨deadlocked.1, deadlocked.2⟩
  have same := stuck.untouched_of_steps fresh earlier steps distinct
  have still := stuck.of_untouched same
  have told := Story.steps_of_later reachable later
  have opened := Story.steps_of_reachable reachable
  have reported : config.recordTrace = true → c.scans < c'.scans →
      c'.reportsOf (q.left.pid, q.right.pid) = 1 := by
    intro recording scanned
    obtain ⟨nodup, count⟩ := Chronicle.reports_of_reachable (reachable.trans later) recording
    rw [count]
    exact List.count_eq_one_of_mem nodup (stuck.mem_reported fresh earlier steps distinct scanned)
  refine ⟨⟨still.mem, still.deadlocked⟩, same.get?_eq, fun monitor => ?_, reported, ?_⟩
  · have after := earlier.trans steps
    exact DeadlockMonitor.exists_mem_inspect_of_cycle? still.mem
      (still.isSome_cycle? (Scene.paired_of_steps fresh after) (Scene.tidy_of_steps fresh after)
        distinct)
  · intro recording idle undispatched long
    have interval : c.story.scanInterval = config.scanInterval := opened.settings_eq.2
    apply reported recording
    refine told.scans_lt_of_idle (Story.notMem_roll_of_idle _ idle) undispatched ?_
    rw [interval]
    exact long

/-- A deadlock is permanent, it is reported once, and it is reported in time, in every run in which
all processes have different numbers. -/
theorem keepsWatch_of_later (reachable : Chronicle.Reachable (.start config workload logLevel) c)
    (later : Chronicle.Later c c') (distinct : Arrival.Distinct c'.moment.ledger.arrived) :
    Chronicle.KeepsWatch (.start config workload logLevel) c c' := by
  refine ⟨fun q => Chronicle.endures_of_later reachable later distinct, fun recording x => ?_,
    Scene.deadlocked_of_steps (Scene.steps_of_path later.moments), fun scanned unscanned c'' => ?_⟩
  · obtain ⟨nodup, count⟩ := Chronicle.reports_of_reachable (reachable.trans later) recording
    rw [count]
    exact List.nodup_iff_count_le_one.1 nodup x
  · exact Chronicle.scans_eq_of_next reachable later scanned.sinceScan_eq_zero unscanned

/-- A run in which the members of a pair park crosswise, nobody else is there to run, and the pair
is reported within the interval. -/
theorem keepsWatch_of_later_crossed : ∃ c c' : Chronicle ScriptedWorkload, ∃ q,
    Chronicle.Reachable (.start {} .crossed none) c ∧ Chronicle.Later c c' ∧
    Chronicle.KeepsWatch (.start {} .crossed none) c c' ∧ c.machine.Deadlocked q ∧
    reports c.events = [] ∧ c'.reportsOf (q.left.pid, q.right.pid) = 1 := by
  have run : ((Machine.start {} ScriptedWorkload.crossed none).performAll
      Command.crossing).toOption.any (fun m =>
        m.running.isNone && (reports m.journal.trace.events).isEmpty &&
        (m.pairs.pairs.any fun q => (q.cycle? m.locks).isSome) &&
        (m.performAll (List.replicate 10 (.tick []))).toOption.any fun m' =>
          m'.dispatches = m.dispatches && m.iteration + 10 ≤ m'.iteration) = true := by
    decide +kernel
  obtain ⟨mo, moments, rest, test⟩ := Moment.exists_reachable_of_performAll run
  simp only [Bool.and_eq_true, Option.isNone_iff_eq_none, List.isEmpty_iff, List.any_eq_true,
    Option.isSome_iff_exists] at test
  obtain ⟨⟨⟨idle, silent⟩, q, hq, held, cycle⟩, run⟩ := test
  obtain ⟨mo', path, -, test⟩ := Moment.exists_path_of_performAll rest run
  simp only [Bool.and_eq_true, decide_eq_true_eq] at test
  obtain ⟨cycles, reachable⟩ := Chronicle.exists_reachable moments
  obtain ⟨cycles', later⟩ := Chronicle.exists_later path cycles
  have distinct := (Moment.distinct_of_library (reachable.trans later).moment).2
  have watch := keepsWatch_of_later reachable later distinct
  have deadlocked : mo.ledger.machine.Deadlocked q := ⟨hq, MutexPair.deadlocked_of_cycle? cycle⟩
  have reported := (watch.endures q deadlocked).inTime rfl idle test.1 test.2
  exact ⟨_, _, q, reachable, later, watch, deadlocked, silent, reported⟩

end Mlfq
