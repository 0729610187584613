import Mlfq.Proofs.Deadlock.Monitor
import Mlfq.Proofs.Story.Roll

/-! # Scans and reports in a story

The counter of what has happened since the last scan grows with every dispatch and with every idle
cycle, and it is looked at when a cycle begins. The trace has one report for each pair that the
monitor remembers. -/

namespace Mlfq.Story

variable {s s₁ s' : Story}

/-! ## Scans -/

/-- The dispatches and the idle cycles so far. -/
def turns (s : Story) : Nat := s.dispatches + s.cycles.count none

theorem turns_congr (dispatches : s'.dispatches = s.dispatches) (cycles : s'.cycles = s.cycles) :
    s'.turns = s.turns := by
  rw [turns, turns, dispatches, cycles]

/-- No process runs. -/
def Idle (s : Story) : Prop := ∀ q, (.cpu, q) ∉ s.roll

theorem Act.sinceScan_add (act : Act s s') : s'.sinceScan + s.turns = s.sinceScan + s'.turns := by
  cases act with
  | dispatch =>
    simp only [turns, tell, tellAll]
    omega
  | _ => rfl

theorem Acts.sinceScan_add (acts : Acts s s') :
    s'.sinceScan + s.turns = s.sinceScan + s'.turns := by
  induction acts with
  | refl => rfl
  | tail _ act ih =>
    have step := act.sinceScan_add
    omega

theorem Act.dispatches_le (act : Act s s') : s.dispatches ≤ s'.dispatches := by
  cases act with
  | dispatch => exact Nat.le_succ _
  | _ => exact Nat.le_refl _

theorem Begin.dispatches_eq (begins : Begin s s') : s'.dispatches = s.dispatches := by
  cases begins <;> simp

theorem Begin.scanInterval_eq (begins : Begin s s') : s'.scanInterval = s.scanInterval := by
  cases begins <;> simp

/-- What becomes of the counter when a cycle begins: it counts the cycle if that is idle, and a scan
is made if the interval is over. -/
inductive Counts (s s' : Story) : Prop
  | scanned (late : s.scanInterval + s.turns ≤ s.sinceScan + s'.turns) (reset : s'.sinceScan = 0)
    (scans : s'.monitor.scans = s.monitor.scans + 1)
  | unscanned (early : s.sinceScan + s'.turns < s.scanInterval + s.turns)
    (counted : s'.sinceScan + s.turns = s.sinceScan + s'.turns) (monitor : s'.monitor = s.monitor)

theorem Counts.scanIfDue (interval : s₁.scanInterval = s.scanInterval)
    (counted : s₁.sinceScan + s.turns = s.sinceScan + s₁.turns) (monitor : s₁.monitor = s.monitor)
    (pairs : MutexPairs) (locks : LockTable) : Counts s (s₁.scanIfDue pairs locks) := by
  unfold Story.scanIfDue
  split
  case isTrue late =>
    have late : s.scanInterval + s.turns ≤ s.sinceScan + s₁.turns := by omega
    have scans := DeadlockMonitor.scans_scan s₁.monitor pairs locks
    exact .scanned late rfl (scans.trans (by rw [monitor]))
  case isFalse early => exact .unscanned (by omega) counted monitor

theorem Begin.counts (begins : Begin s s') : Counts s s' := by
  cases begins with
  | idle pairs locks =>
    apply Counts.scanIfDue
    · rfl
    · simp only [turns, List.count_append, List.count_singleton_self]
      omega
    · rfl
  | tick pairs locks =>
    apply Counts.scanIfDue
    · rfl
    · simp [turns]
    · rfl

/-- A scan is made when a cycle begins and the interval is over, and at no other time. -/
theorem Next.scans_eq (next : Next s s') : s'.monitor.scans = s.monitor.scans +
    if s.iteration < s'.iteration ∧ s.scanInterval + s.turns ≤ s.sinceScan + s'.turns
    then 1 else 0 := by
  cases next with
  | between due acts =>
    have same := acts.frame.iteration
    rw [if_neg (by omega), acts.frame.monitor]
    rfl
  | settled settles =>
    have same := (Settle.frame settles).iteration
    rw [if_neg (by omega), (Settle.frame settles).monitor]
    rfl
  | ended => rw [if_neg fun begun => Nat.lt_irrefl _ begun.1]; rfl
  | cycle begins acts dispatches =>
    have iteration := acts.frame.iteration.trans begins.iteration
    have turns := turns_congr (dispatches.trans begins.dispatches_eq.symm) acts.frame.cycles
    rw [acts.frame.monitor]
    cases begins.counts with
    | scanned late reset scans => rw [if_pos ⟨by omega, turns ▸ late⟩, scans]
    | unscanned early counted monitor =>
      rw [if_neg fun late => absurd late.2 (Nat.not_le.2 (turns ▸ early)), monitor]
      rfl

/-- After a scan the counter starts again. -/
theorem Next.sinceScan_eq_zero (next : Next s s') (scanned : s.monitor.scans < s'.monitor.scans) :
    s'.sinceScan = 0 := by
  cases next with
  | between due acts =>
    rw [acts.frame.monitor] at scanned
    exact absurd scanned (Nat.lt_irrefl _)
  | settled settles =>
    rw [(Settle.frame settles).monitor] at scanned
    exact absurd scanned (Nat.lt_irrefl _)
  | ended => exact absurd scanned (Nat.lt_irrefl _)
  | cycle begins acts dispatches =>
    have turns := turns_congr (dispatches.trans begins.dispatches_eq.symm) acts.frame.cycles
    have counted := acts.sinceScan_add
    cases begins.counts with
    | scanned late reset scans => omega
    | unscanned early counted monitor =>
      rw [acts.frame.monitor, monitor] at scanned
      exact absurd scanned (Nat.lt_irrefl _)

/-- While no scan is made, the counter tells what has happened. -/
theorem Steps.sinceScan_add (steps : Steps s s') : s.monitor.scans ≤ s'.monitor.scans ∧
    (s'.monitor.scans = s.monitor.scans → s'.sinceScan + s.turns = s.sinceScan + s'.turns) := by
  refine steps.keep (I := fun s' => s.monitor.scans ≤ s'.monitor.scans ∧
    (s'.monitor.scans = s.monitor.scans → s'.sinceScan + s.turns = s.sinceScan + s'.turns))
    ⟨Nat.le_refl _, fun _ => rfl⟩ ?_ (fun _ h => h) ?_
  · rintro s₁ s₂ act ⟨le, counted⟩
    rw [act.frame.monitor]
    refine ⟨le, fun same => ?_⟩
    have step := act.sinceScan_add
    have before := counted same
    omega
  · rintro s₁ s₂ begins ⟨le, counted⟩
    cases begins.counts with
    | scanned late reset scans => exact ⟨by omega, by omega⟩
    | unscanned early step monitor =>
      rw [monitor]
      refine ⟨le, fun same => ?_⟩
      have before := counted same
      omega

theorem Steps.settings_eq (steps : Steps s s') :
    s'.tracing = s.tracing ∧ s'.scanInterval = s.scanInterval := by
  refine steps.keep (I := fun s' => s'.tracing = s.tracing ∧ s'.scanInterval = s.scanInterval)
    ⟨rfl, rfl⟩ ?_ (fun _ h => h) ?_
  · rintro s₁ s₂ act ⟨tracing, interval⟩
    exact ⟨act.frame.tracing.trans tracing, act.frame.scanInterval.trans interval⟩
  · rintro s₁ s₂ begins ⟨tracing, interval⟩
    exact ⟨begins.tracing.trans tracing, begins.scanInterval_eq.trans interval⟩

/-! ## Idle times -/

theorem Idle.cons {x : Station × Proc} {rest : Multiset (Station × Proc)}
    (idle : ∀ q, (.cpu, q) ∉ rest) (elsewhere : x.1 ≠ .cpu) : ∀ q, (.cpu, q) ∉ x ::ₘ rest := by
  intro q mem
  rcases Multiset.mem_cons.1 mem with rfl | mem
  · exact elsewhere rfl
  · exact idle q mem

/-- An idle CPU stays idle until somebody is dispatched. -/
theorem Idle.act (idle : s.Idle) (act : Act s s') :
    s'.dispatches = s.dispatches ∧ s'.Idle ∨ s.dispatches < s'.dispatches := by
  have others : ∀ {x rest}, s.roll = x ::ₘ rest → ∀ q, (Station.cpu, q) ∉ rest :=
    fun here q mem => idle q (here ▸ Multiset.mem_cons_of_mem mem)
  cases act with
  | note => exact .inl ⟨rfl, idle⟩
  | arrive => exact .inl ⟨rfl, Idle.cons idle nofun⟩
  | pass here passes => exact .inl ⟨rfl, Idle.cons (others here) passes.station_ne_cpu⟩
  | dispatch => exact .inr (Nat.lt_succ_self _)
  | wake here => exact .inl ⟨rfl, Idle.cons (others here) nofun⟩
  | lose here => exact .inl ⟨rfl, others here⟩

/-- A cycle that begins while the CPU is idle is an idle one. -/
theorem Idle.begins (idle : s.Idle) (begins : Begin s s') :
    s'.Idle ∧ s'.turns = s.turns + 1 := by
  cases begins with
  | idle pairs locks =>
    rw [Idle, roll_scanIfDue]
    exact ⟨idle, by simp [turns, Nat.add_assoc]⟩
  | tick pairs locks here => exact absurd (here ▸ Multiset.mem_cons_self _ _) (idle _)

/-- From `s` on the CPU has been idle and no scan was made. -/
structure Lull (s s' : Story) : Prop where
  idle : s'.Idle
  interval : s'.scanInterval = s.scanInterval
  scans : s'.monitor.scans = s.monitor.scans
  dispatches : s'.dispatches = s.dispatches
  counted : s'.sinceScan + s.iteration = s.sinceScan + s'.iteration
  early : s.iteration < s'.iteration → s'.sinceScan < s.scanInterval

theorem Lull.act (lull : Lull s s₁) (act : Act s₁ s') :
    Lull s s' ∨ s.dispatches < s'.dispatches := by
  have counted := act.sinceScan_add
  have frame := act.frame
  rcases lull.idle.act act with ⟨dispatches, idle⟩ | dispatched
  · have turns := turns_congr dispatches frame.cycles
    have since : s'.sinceScan = s₁.sinceScan := by omega
    refine .inl ⟨idle, frame.scanInterval.trans lull.interval, ?_,
      dispatches.trans lull.dispatches, ?_, ?_⟩
    · rw [frame.monitor, lull.scans]
    · rw [since, frame.iteration, lull.counted]
    · rw [since, frame.iteration]
      exact lull.early
  · exact .inr (lull.dispatches ▸ dispatched)

theorem Lull.settle (due : Option Pid) (lull : Lull s s₁) : Lull s { s₁ with due } :=
  ⟨lull.idle, lull.interval, lull.scans, lull.dispatches, lull.counted, lull.early⟩

theorem Lull.begins (lull : Lull s s₁) (begins : Begin s₁ s') :
    Lull s s' ∨ s.monitor.scans < s'.monitor.scans := by
  have counted := lull.counted
  have interval := lull.interval
  have iteration := begins.iteration
  obtain ⟨idle, turns⟩ := lull.idle.begins begins
  cases begins.counts with
  | scanned late reset scans =>
    rw [scans, lull.scans]
    exact .inr (Nat.lt_succ_self _)
  | unscanned early since monitor =>
    refine .inl ⟨idle, begins.scanInterval_eq.trans interval, ?_,
      begins.dispatches_eq.trans lull.dispatches, by omega, by omega⟩
    rw [monitor, lull.scans]

/-- A lull ends with a dispatch or with a scan. -/
theorem Steps.lull (steps : Steps s s') (idle : s.Idle) :
    Lull s s' ∨ s.dispatches < s'.dispatches ∨ s.monitor.scans < s'.monitor.scans := by
  refine steps.keep (I := fun s' => Lull s s' ∨ s.dispatches < s'.dispatches ∨
    s.monitor.scans < s'.monitor.scans)
    (.inl ⟨idle, rfl, rfl, rfl, rfl, fun lt => absurd lt (Nat.lt_irrefl _)⟩) ?_
    (fun due h => h.imp_left (Lull.settle due)) ?_
  · rintro s₁ s₂ act (lull | dispatched | scanned)
    · exact (lull.act act).imp id .inl
    · exact .inr (.inl (Nat.lt_of_lt_of_le dispatched act.dispatches_le))
    · exact .inr (.inr (act.frame.monitor ▸ scanned))
  · rintro s₁ s₂ begins (lull | dispatched | scanned)
    · exact (lull.begins begins).imp id .inr
    · exact .inr (.inl (begins.dispatches_eq ▸ dispatched))
    · have le := (Steps.sinceScan_add (.single (.inr (.inr begins)))).1
      exact .inr (.inr (Nat.lt_of_lt_of_le scanned le))

/-- When the CPU is idle for as many cycles as the interval has, and for one at least, a scan is
made in one of them. -/
theorem Steps.scans_lt_of_idle (steps : Steps s s') (idle : s.Idle)
    (dispatches : s'.dispatches = s.dispatches)
    (long : s.iteration + max 1 s.scanInterval ≤ s'.iteration) :
    s.monitor.scans < s'.monitor.scans := by
  rcases steps.lull idle with lull | dispatched | scanned
  · have counted := lull.counted
    have early := lull.early (by omega)
    omega
  · omega
  · exact scanned

/-! ## Reports -/

/-- The trace has one report for each pair that the monitor remembers. -/
structure Candid (s : Story) : Prop where
  nodup : s.monitor.reported.Nodup
  reports : s.tracing = true → reports s.events = s.monitor.reported.reverse

theorem Passes.pair?_eq_none {due due' : Option Pid} {x x' : Station × Proc} {e : Event}
    (h : Passes due x e x' due') : e.pair? = none := by
  cases h <;> rfl

theorem reports_tell (s : Story) {e : Event} (pair : e.pair? = none) :
    reports (s.tell e).events = reports s.events := by
  have silent : reports [e] = [] := by simp [reports, pair]
  unfold tell tellAll
  split
  · rw [reports_append, silent, List.append_nil]
  · rfl

theorem Candid.act (candid : s.Candid) (act : Act s s') : s'.Candid := by
  have frame := act.frame
  have same : Mlfq.reports s'.events = Mlfq.reports s.events := by
    cases act with
    | note mark pair => exact reports_tell s pair
    | arrive => exact reports_tell _ rfl
    | pass here passes => exact reports_tell _ passes.pair?_eq_none
    | dispatch => exact reports_tell _ rfl
    | wake | lose => rfl
  refine ⟨frame.monitor ▸ candid.nodup, fun tracing => ?_⟩
  rw [same, frame.monitor]
  exact candid.reports (frame.tracing ▸ tracing)

theorem Candid.scanIfDue (candid : s.Candid) (pairs : MutexPairs) (locks : LockTable) :
    (s.scanIfDue pairs locks).Candid := by
  unfold Story.scanIfDue
  split
  · refine ⟨DeadlockMonitor.nodup_scan candid.nodup, fun tracing => ?_⟩
    have tracing : s.tracing = true := tracing
    simp only [tellAll, if_pos tracing, reports_append, candid.reports tracing,
      DeadlockMonitor.reported_scan, List.reverse_append, List.reverse_reverse]
    rfl
  · exact candid

theorem Candid.begins (candid : s.Candid) (begins : Begin s s') : s'.Candid := by
  cases begins with
  | idle | tick =>
    apply Candid.scanIfDue
    exact ⟨candid.nodup, candid.reports⟩

theorem Steps.candid (steps : Steps s s') (candid : s.Candid) : s'.Candid :=
  steps.keep candid (fun act candid => candid.act act)
    (fun _ candid => ⟨candid.nodup, candid.reports⟩) fun begins candid => candid.begins begins

/-- What the monitor says follows what it remembers. -/
theorem Steps.honest (steps : Steps s s') (honest : s.monitor.Honest) : s'.monitor.Honest := by
  have scanned : ∀ {s : Story} (pairs : MutexPairs) (locks : LockTable), s.monitor.Honest →
      (s.scanIfDue pairs locks).monitor.Honest := by
    intro s pairs locks honest
    unfold Story.scanIfDue
    split
    · exact honest.scan
    · exact honest
  refine steps.keep (I := fun s => s.monitor.Honest) honest ?_ (fun _ honest => honest) ?_
  · intro s s' act honest
    rwa [act.frame.monitor]
  · intro s s' begins honest
    cases begins with
    | idle pairs locks => exact scanned pairs locks honest
    | tick pairs locks => exact scanned pairs locks honest

theorem candid_opening (config : Config) : (opening config).Candid := ⟨List.nodup_nil, fun _ => rfl⟩

end Mlfq.Story
