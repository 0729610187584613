import Mlfq.Proofs.Deadlock.Order

/-! # Pairs in the same order do not deadlock

Without reversed pairs the monitor never finds anything. This is what a random workload that does
not reverse its pairs relies on. -/

namespace Mlfq

namespace DeadlockMonitor

/-- Where there is no cycle a scan finds nothing and remembers nothing. -/
theorem inspect_of_cycle?_eq_none {t : LockTable} {pairs : List MutexPair}
    {monitor : DeadlockMonitor} (none : ∀ q ∈ pairs, q.cycle? t = none) :
    inspect t pairs monitor = ([], monitor) := by
  induction pairs with
  | nil => rfl
  | cons q pairs ih =>
    rw [inspect, none q List.mem_cons_self]
    exact ih fun q' hq' => none q' (List.mem_cons_of_mem _ hq')

theorem scan_of_cycle?_eq_none {t : LockTable} {pairs : MutexPairs} {monitor : DeadlockMonitor}
    (none : ∀ q ∈ pairs.pairs, q.cycle? t = none) :
    monitor.scan pairs t = ([], { monitor with scans := monitor.scans + 1 }) :=
  inspect_of_cycle?_eq_none none

end DeadlockMonitor

namespace Scene

variable {s s' : Scene} {q : MutexPair}

/-- Who holds the second lock is not parked on the first. -/
theorem Ordered.not_crossed (h : s.Ordered) (aligned : s.Aligned) (hq : q ∈ s.pairs.pairs)
    {x y : Pid} (holds : s.locks.HeldAndAwaited q.left.second x y)
    (parked : s.locks.HeldAndAwaited q.left.first y x) : False := by
  obtain ⟨l, found, held, -⟩ := holds
  obtain ⟨l', found', -, awaited⟩ := parked
  obtain ⟨w, hw, rfl⟩ := Queue.holds_iff.1 awaited
  have here : w.core ∈ s.population := core_mem_of_lock aligned.tidy found' hw
  have inside := (h.holder q hq l found w.core here held).1
  rw [w.pc_core] at inside
  exact h.waiters q hq l' found' w hw inside

theorem Ordered.cycle?_eq_none (h : s.Ordered) (aligned : s.Aligned) :
    ∀ q ∈ s.pairs.pairs, q.cycle? s.locks = none := by
  intro q hq
  cases cycle : q.cycle? s.locks with
  | none => rfl
  | some locks =>
    obtain ⟨a, b⟩ := locks
    obtain ⟨⟨rfl, rfl⟩ | ⟨rfl, rfl⟩, left, right⟩ := MutexPair.of_cycle? cycle
    · exact (h.not_crossed aligned hq right left).elim
    · exact (h.not_crossed aligned hq left right).elim

/-- The members of a pair are not both parked. -/
theorem Ordered.not_both_awaited (h : s.Ordered) (aligned : s.Aligned) {first second : Proc}
    {reversed : Bool} (come : .mutexPair first second reversed ∈ s.arrived) :
    ¬(s.locks.Awaited first.pid ∧ s.locks.Awaited second.pid) := by
  rintro ⟨left, right⟩
  have ⟨tidy, paired, lawful, _⟩ := aligned
  obtain ⟨id, l, w, found, hw, same⟩ := (LockTable.awaited_iff tidy.locks).1 left
  obtain ⟨q, hq, hid⟩ := paired.exists_owner found
  have member := (paired.within q hq id hid l found).waiters w hw
  obtain ⟨first_eq, second_eq⟩ := aligned.pids_of_arrival hq come (same ▸ member)
  have cycle := isSome_cycle?_of_awaited paired tidy lawful.distinct hq (first_eq ▸ left)
    (second_eq ▸ right)
  rw [h.cycle?_eq_none aligned q hq] at cycle
  cases cycle

/-- The monitor never reports anything. -/
theorem not_deadlocked_of_steps (fresh : s.Fresh) (steps : Steps s s')
    (distinct : Arrival.Distinct s'.arrived) (sameOrder : ∀ a ∈ s'.arrived, a.SameOrder) :
    s'.monitor.deadlocked = false := by
  induction steps with
  | refl => exact fresh.monitor
  | tail steps step ih =>
    have arrived := arrived_prefix_of_step step
    have before := distinct_of_prefix arrived distinct
    have sameOrder := fun a ha => sameOrder a (arrived.subset ha)
    have calm := ih before sameOrder
    cases step with
    | scan =>
      have aligned := aligned_of_steps fresh steps before sameOrder
      have ordered := ordered_of_steps fresh steps before sameOrder
      rw [DeadlockMonitor.scan_of_cycle?_eq_none (ordered.cycle?_eq_none aligned)]
      exact calm
    | dissolve =>
      rw [monitor_dropLock, monitor_dropLock]
      exact calm
    | _ => exact calm

end Scene

/-- The members of no mutex pair are both parked on locks, a scan finds nothing, and none has ever
found anything. -/
structure Ledger.DeadlockFree {σ : Type} (g : Ledger σ) : Prop where
  members : ∀ first second reversed, .mutexPair first second reversed ∈ g.arrived →
    ¬(g.machine.locks.Awaited first.pid ∧ g.machine.locks.Awaited second.pid)
  scan : ∀ monitor : DeadlockMonitor, (monitor.scan g.machine.pairs g.machine.locks).1 = []
  monitor : g.machine.monitor.deadlocked = false

namespace Scene

/-- Nobody is parked crosswise when the members of all pairs take their locks in the same order. -/
theorem deadlockFree_of_reachable {σ : Type} [Workload σ] {config : Config} {workload : σ}
    {logLevel : Option Level} {mo : Moment σ}
    (reachable : Moment.Reachable (.start config workload logLevel) mo)
    (distinct : Arrival.Distinct mo.ledger.arrived)
    (sameOrder : ∀ a ∈ mo.ledger.arrived, a.SameOrder) : mo.ledger.DeadlockFree := by
  have steps := steps_of_reachable reachable
  have fresh := fresh_start config workload logLevel
  have aligned := aligned_of_steps fresh steps distinct sameOrder
  have ordered := ordered_of_steps fresh steps distinct sameOrder
  constructor
  · intro first second reversed come
    exact ordered.not_both_awaited aligned come
  · intro monitor
    have found : monitor.scan mo.ledger.machine.pairs mo.ledger.machine.locks = ([], _) :=
      DeadlockMonitor.scan_of_cycle?_eq_none (ordered.cycle?_eq_none aligned)
    rw [found]
  · exact not_deadlocked_of_steps fresh steps distinct sameOrder

end Scene

/-! ## Random workloads -/

namespace RandomWorkload

/-- The standard program spares a safe largest program counter. -/
theorem spares_of_isSafe {maxPc : Nat} (safe : isSafe maxPc = true) :
    MutexProgram.standard.Spares maxPc := by
  refine ⟨_, MutexProgram.holdWindows_standard, fun w hw inside => ?_⟩
  rw [isSafe, Bool.not_eq_true', List.any_eq_false] at safe
  have here : w ∈ holdWindows := by
    rw [holdWindows, MutexProgram.holdWindows_standard]
    exact List.mem_append_left _ hw
  have outside := safe w here
  rw [Bool.and_eq_true, decide_eq_true_eq, decide_eq_true_eq] at outside
  exact outside inside

theorem Drawn.sameOrder {w : RandomWorkload} {a : Arrival} (kept : w.reversePairs = false)
    (h : w.Drawn a) : a.SameOrder := by
  cases h with
  | mutexPair first second safe₁ safe₂ =>
    exact ⟨kept, ⟨rfl, spares_of_isSafe safe₁⟩, rfl, spares_of_isSafe safe₂⟩
  | _ => exact trivial

end RandomWorkload

/-- When the members of each mutex pair take their locks in the same order, run the standard
program and never wrap while they may hold a lock, no pair deadlocks and the monitor never says so.
A random workload that does not reverse its pairs makes only such pairs, whatever its seed. -/
theorem deadlockFree_of_sameOrder :
    (∀ {σ : Type} [Workload σ] {config : Config} {workload : σ} {logLevel : Option Level}
      {mo : Moment σ}, Moment.Reachable (.start config workload logLevel) mo →
      Arrival.Distinct mo.ledger.arrived → (∀ a ∈ mo.ledger.arrived, a.SameOrder) →
      mo.ledger.DeadlockFree) ∧
    ∀ {config : Config} {workload : RandomWorkload} {logLevel : Option Level}
      {mo : Moment RandomWorkload}, workload.reversePairs = false →
      Moment.Reachable (.start config workload logLevel) mo →
      Arrival.Distinct mo.ledger.arrived ∧ (∀ a ∈ mo.ledger.arrived, a.SameOrder) ∧
      mo.ledger.DeadlockFree := by
  constructor
  · intro σ _ config workload logLevel mo reachable distinct sameOrder
    exact Scene.deadlockFree_of_reachable reachable distinct sameOrder
  · intro config workload logLevel mo kept reachable
    have distinct := (Moment.distinct_of_library reachable).2
    have sameOrder : ∀ a ∈ mo.ledger.arrived, a.SameOrder := by
      intro a ha
      obtain ⟨w, kept, drawn⟩ := Moment.drawn_of_not_reversed kept reachable a ha
      exact drawn.sameOrder kept
    exact ⟨distinct, sameOrder, Scene.deadlockFree_of_reachable reachable distinct sameOrder⟩

/-- One mutex pair and nothing else, in the same order. -/
def Config.samePair : Config :=
  { reversePairs := false
    caps := { ioLive := 0, computeLive := 0, mutexCreated := 2, rendezvousPairs := 0 } }

/-- A random run in which a member of a pair is parked, and not in a deadlock. -/
theorem deadlockFree_of_sameOrder_samePair : ∃ mo : Moment RandomWorkload,
    Moment.Reachable (.start .samePair (.ofConfig .samePair) none) mo ∧
    mo.ledger.DeadlockFree ∧ ∃ l ∈ mo.ledger.machine.locks.toList, l.waiters.isEmpty = false := by
  have run : ((Machine.start .samePair (RandomWorkload.ofConfig .samePair) none).performAll
      ([.boot] ++ List.replicate 6 (.tick []) ++ [.timerInterrupt []] ++
        List.replicate 10 (.tick []))).toOption.any
      (fun m => m.locks.toList.any fun l => !l.waiters.isEmpty) = true := by decide +kernel
  obtain ⟨mo, reachable, -, parked⟩ := Moment.exists_reachable_of_performAll run
  obtain ⟨l, hl, here⟩ := List.any_eq_true.1 parked
  obtain ⟨sameOrder_free, random⟩ := deadlockFree_of_sameOrder
  obtain ⟨distinct, sameOrder, -⟩ := random rfl reachable
  rw [Bool.not_eq_true'] at here
  exact ⟨mo, reachable, sameOrder_free reachable distinct sameOrder, l, hl, here⟩

end Mlfq
