import Mathlib.Tactic.Abel
import Mlfq.Proofs.Run.Command
import Mlfq.Proofs.Scene.Trap

/-! # Runs in scenes

Whatever happens in a run is a sequence of steps of the scene. What only concerns the order of
service is no step at all. -/

namespace Mlfq

open Queue (cores)

variable {σ : Type} {m m' : Machine σ} {arrived : List Arrival} {dropped : Queue}

theorem Machine.eq_of_attempt {α : Type} {r : Except Fault α} {a : α}
    (h : m.attempt r = .ok a) : r = .ok a := by
  cases r with
  | ok b => cases h; rfl
  | error fault => cases h

/-- What the end of a request does. -/
theorem Machine.exists_of_completeIo {d : DeviceId} (h : m.completeIo d = .ok (some m')) :
    ∃ dev p q countdown gen, m.devices[d.num]? = some dev ∧ dev.queue = p :: q ∧
      m' = Machine.emit (Machine.measure { m with
        ready := m.ready.enqueue { p with pc := p.pc + 1 }
        devices := m.devices.set d.num { queue := q, countdown }
        gen
        ioCompletions := m.ioCompletions + 1 }
          fun c => { c with ioCompletions := c.ioCompletions + 1 }) (.ioCompleted p.pid d) := by
  unfold Machine.completeIo at h
  cases hd : m.devices[d.num]? with
  | none =>
    rw [hd] at h
    cases h
  | some dev =>
    rw [hd] at h
    cases hq : dev.queue with
    | nil => simp [hq, Queue.dequeue] at h
    | cons p q =>
      simp only [hq, Queue.dequeue] at h
      obtain ⟨pc, hpc, h⟩ := exists_of_bind_eq_ok h
      obtain ⟨-, rfl⟩ := Word.succ_eq_ok_iff.1 (Machine.eq_of_attempt hpc)
      cases q with
      | nil =>
        cases h
        exact ⟨dev, p, [], 0, m.gen, rfl, hq, rfl⟩
      | cons next q =>
        cases h
        exact ⟨dev, p, next :: q, _, _, rfl, hq, rfl⟩

/-- What the end of a process does. -/
theorem Machine.exists_of_terminateIfDone {pid : Pid} (h : m.terminateIfDone pid = some m') :
    ∃ p, m.running = some p ∧ p.pid = pid ∧ p.shouldTerminate = true ∧ m' = m.terminate p := by
  unfold Machine.terminateIfDone at h
  split at h
  · cases h
  · rename_i p running
    split at h
    case isTrue done =>
      cases h
      simp only [Bool.and_eq_true, decide_eq_true_eq] at done
      exact ⟨p, running, done.1, done.2, rfl⟩
    case isFalse => cases h

namespace Scene

/-! ## The dispatcher -/

theorem scene_admitNewcomers (m : Machine σ) (arrived : List Arrival) (dropped : Queue) :
    (⟨m.admitNewcomers, arrived, dropped⟩ : Ledger σ).scene =
      (⟨m, arrived, dropped⟩ : Ledger σ).scene := by
  have free : cores [] + cores (m.ready.enqueueAll m.newcomers).toList =
      cores m.newcomers + cores m.ready.toList := by
    rw [ReadyQueue.cores_toList_enqueueAll, Queue.cores_nil, zero_add]
  simp only [Ledger.scene, Machine.admitNewcomers, free]
  rfl

theorem scene_preempt (m : Machine σ) (arrived : List Arrival) (dropped : Queue) :
    (⟨m.preempt, arrived, dropped⟩ : Ledger σ).scene =
      (⟨m, arrived, dropped⟩ : Ledger σ).scene := by
  unfold Machine.preempt
  cases hp : m.running with
  | none => rfl
  | some p =>
    have queued : ∀ priority, cores (m.ready.enqueue { p with pc := m.cpuPc, priority }).toList =
        cores m.ready.toList + cores m.onCpu := by
      intro priority
      rw [ReadyQueue.cores_toList_enqueue, Machine.onCpu, hp, ← Multiset.singleton_add, add_comm]
      rfl
    simp only [Ledger.scene, Machine.emit, Machine.measure, queued, Machine.onCpu, Option.map_none,
      Option.toList_none, Queue.cores_nil, add_zero, add_assoc]

theorem scene_dispatch (hm : m.running = none) (arrived : List Arrival) (dropped : Queue) :
    (⟨m.dispatch, arrived, dropped⟩ : Ledger σ).scene =
      (⟨m, arrived, dropped⟩ : Ledger σ).scene := by
  unfold Machine.dispatch
  cases hd : m.ready.dequeue with
  | none => rfl
  | some taken =>
    obtain ⟨p, ready⟩ := taken
    have idle : m.onCpu = [] := by rw [Machine.onCpu, hm]; rfl
    have free : cores m.ready.toList + cores m.onCpu = cores ready.toList + {p.core} := by
      rw [ReadyQueue.toList_of_dequeue hd, idle, Queue.cores_cons, Queue.cores_nil, add_zero,
        ← Multiset.singleton_add, add_comm]
    simp only [Ledger.scene, Machine.emit, Machine.log, Machine.measure, add_assoc, free]
    rfl

theorem scene_raiseTimer (m : Machine σ) (arrived : List Arrival) (dropped : Queue) :
    (⟨m.raiseTimer, arrived, dropped⟩ : Ledger σ).scene =
      (⟨m, arrived, dropped⟩ : Ledger σ).scene := by
  have onCpu : cores m.raiseTimer.onCpu = cores m.onCpu := by
    simp only [Machine.onCpu, Machine.raiseTimer, Machine.emit]
    cases m.running <;> rfl
  simp only [Ledger.scene, onCpu]
  rfl

/-! ## Arrivals -/

theorem scene_admitProc (m : Machine σ) (p : Proc) (arrived : List Arrival) (dropped : Queue) :
    (⟨m.admitProc p, arrived, dropped⟩ : Ledger σ).scene =
      { (⟨m, arrived, dropped⟩ : Ledger σ).scene with
        free := p.core ::ₘ (⟨m, arrived, dropped⟩ : Ledger σ).scene.free } := by
  simp only [Ledger.scene, Machine.admitProc, Machine.emit, Queue.cores_enqueue, Multiset.cons_add]
  rfl

theorem step_receive (m : Machine σ) (a : Arrival) (arrived : List Arrival) (dropped : Queue) :
    Step (⟨m, arrived, dropped⟩ : Ledger σ).scene
      (⟨m.receive a, arrived ++ [a], dropped⟩ : Ledger σ).scene := by
  cases a with
  | single p =>
    apply (Step.single p).congr
    exact (scene_admitProc m p (arrived ++ [.single p]) dropped).symm
  | mutexPair first second reversed =>
    apply (Step.mutexPair first second reversed).congr
    simp only [Machine.receive, scene_admitProc]
    rw [Multiset.cons_swap]
    rfl
  | rendezvousPair producer consumer =>
    apply (Step.rendezvousPair producer consumer).congr
    simp only [Machine.receive, scene_admitProc]
    rw [Multiset.cons_swap]
    rfl

theorem steps_receive (m : Machine σ) (as arrived : List Arrival) (dropped : Queue) :
    Steps (⟨m, arrived, dropped⟩ : Ledger σ).scene
      (⟨as.foldl Machine.receive m, arrived ++ as, dropped⟩ : Ledger σ).scene := by
  induction as generalizing m arrived with
  | nil =>
    rw [List.append_nil]
    exact .refl
  | cons a as ih =>
    rw [List.foldl_cons, List.append_cons]
    exact .head (step_receive m a arrived dropped) (ih _ _)

theorem steps_requestBatch [Workload σ] {n : Nat} (arrived : List Arrival) (dropped : Queue)
    (h : m.requestBatch = .ok (n, m')) :
    Steps (⟨m, arrived, dropped⟩ : Ledger σ).scene
      (⟨m', arrived ++ m.nextArrivals, dropped⟩ : Ledger σ).scene := by
  obtain ⟨batch, hbatch, h⟩ := exists_of_bind_eq_ok h
  cases h
  have next : m.nextArrivals = batch.arrivals := by
    rw [Machine.nextArrivals, Machine.eq_of_attempt hbatch]
  rw [next]
  exact steps_receive { m with workload := batch.rest, pids := batch.pids } _ _ _

theorem steps_boot [Workload σ] (h : m.boot = .ok m') :
    Steps (⟨m, arrived, dropped⟩ : Ledger σ).scene
      (⟨m', arrived ++ m.nextArrivals, dropped⟩ : Ledger σ).scene := by
  obtain ⟨⟨n, m₁⟩, h₁, h⟩ := exists_of_bind_eq_ok h
  cases h
  have steps := steps_requestBatch arrived dropped h₁
  exact steps

/-- Priorities are no part of the scene. -/
theorem scene_raisePriorities (m : Machine σ) (arrived : List Arrival) (dropped : Queue) :
    (⟨{ m with
      ready := m.ready.resetPriorities
      running := m.running.map fun (p : Proc) => { p with priority := .highest }
      sinceReset := 0 }, arrived, dropped⟩ : Ledger σ).scene =
      (⟨m, arrived, dropped⟩ : Ledger σ).scene := by
  have ready : cores m.ready.resetPriorities.toList = cores m.ready.toList := by
    rw [ReadyQueue.toList_resetPriorities, Queue.cores_map fun p => Proc.core_priority p _]
  have onCpu : cores (Machine.onCpu { m with
      running := m.running.map fun (p : Proc) => { p with priority := .highest } }) =
      cores m.onCpu := by
    simp only [Machine.onCpu]
    cases m.running <;> rfl
  simp only [Ledger.scene, ready]
  rw [← onCpu]
  rfl

theorem steps_resetPriorities [Workload σ] (h : m.resetPriorities = .ok m') :
    Steps (⟨m, arrived, dropped⟩ : Ledger σ).scene
      (⟨m', arrived ++ m.nextArrivals, dropped⟩ : Ledger σ).scene := by
  obtain ⟨⟨n, m₁⟩, h₁, h⟩ := exists_of_bind_eq_ok h
  cases h
  have steps := steps_requestBatch arrived dropped h₁
  rw [scene_raisePriorities] at steps
  exact steps

/-! ## Ended processes -/

theorem scene_dropLock (m : Machine σ) (id : LockId) (arrived : List Arrival) (dropped : Queue) :
    (⟨m.dropLock id, arrived, dropped⟩ : Ledger σ).scene =
      (⟨m, arrived, dropped⟩ : Ledger σ).scene.dropLock id := by
  have found : (⟨m, arrived, dropped⟩ : Ledger σ).scene.locks = m.locks := rfl
  unfold Machine.dropLock dropLock
  rw [found]
  cases m.locks.get? id with
  | none => rfl
  | some l =>
    have free : cores m.newcomers + cores (m.ready.enqueueAll l.waiters).toList + cores m.onCpu =
        cores l.waiters + (cores m.newcomers + cores m.ready.toList + cores m.onCpu) := by
      rw [ReadyQueue.cores_toList_enqueueAll]
      abel
    simp only [Ledger.scene]
    rw [← free]
    rfl

/-- A mutex pair is retired while the ended process still waits to be dropped. -/
theorem step_retireFromPair (arrived : List Arrival) (dropped : Queue) {p : Proc} {rest : Queue}
    (hz : m.zombies = p :: rest) :
    Step (⟨m, arrived, dropped⟩ : Ledger σ).scene
      (⟨m.retireFromPair p.pid, arrived, dropped⟩ : Ledger σ).scene := by
  unfold Machine.retireFromPair
  rcases hr : MutexPairs.retire p.pid m.pairs.pairs with ⟨locks, pairs⟩
  cases locks with
  | none => exact .retire hz hr
  | some locks =>
    apply (Step.dissolve hz hr).congr
    rw [scene_dropLock, scene_dropLock]
    rfl

theorem step_retireFromChannel (arrived : List Arrival) (dropped : Queue) {p : Proc} {rest : Queue}
    (hz : m.zombies = p :: rest) :
    Step (⟨m, arrived, dropped⟩ : Ledger σ).scene
      (⟨{ m.retireFromChannel p with zombies := rest }, arrived, dropped ++ [p]⟩ :
        Ledger σ).scene := by
  have zombie : (⟨m, arrived, dropped⟩ : Ledger σ).scene.zombies = p :: rest := hz
  have channels : (⟨m, arrived, dropped⟩ : Ledger σ).scene.channels = m.channels := rfl
  unfold Machine.retireFromChannel
  cases bound : p.channel? with
  | none =>
    refine (Step.drop zombie fun id uses => ?_).congr rfl
    rw [bound] at uses
    cases uses
  | some id =>
    simp only
    cases found : m.channels.get? id with
    | none =>
      refine (Step.drop zombie fun id' uses => ?_).congr rfl
      rw [bound] at uses
      cases uses
      exact found
    | some c =>
      rw [← channels] at found
      simp only
      split
      case isTrue goes => exact (Step.close zombie bound found goes).congr rfl
      case isFalse stays =>
        exact (Step.leave zombie bound found (Bool.eq_false_iff.2 stays)).congr rfl

theorem dropLock_setZombies (m : Machine σ) (id : LockId) (zombies : Queue) :
    { m with zombies }.dropLock id = { m.dropLock id with zombies } := by
  unfold Machine.dropLock
  cases m.locks.get? id <;> rfl

theorem retireFromPair_setZombies (m : Machine σ) (pid : Pid) (zombies : Queue) :
    { m with zombies }.retireFromPair pid = { m.retireFromPair pid with zombies } := by
  unfold Machine.retireFromPair
  rcases MutexPairs.retire pid m.pairs.pairs with ⟨locks, pairs⟩
  cases locks with
  | none => rfl
  | some locks =>
    have first := dropLock_setZombies { m with pairs := ⟨pairs⟩ } locks.1 zombies
    exact (congrArg (Machine.dropLock · locks.2) first).trans (dropLock_setZombies _ _ zombies)

theorem retireFromChannel_setZombies (m : Machine σ) (p : Proc) (zombies : Queue) :
    { m with zombies }.retireFromChannel p = { m.retireFromChannel p with zombies } := by
  unfold Machine.retireFromChannel
  cases p.channel? with
  | none => rfl
  | some id =>
    simp only
    cases m.channels.get? id with
    | none => rfl
    | some c =>
      simp only
      split <;> rfl

/-- What remains to be dropped has no part in what is dropped now. -/
theorem reapOne_setZombies (m : Machine σ) (p : Proc) (zombies : Queue) :
    { m with zombies }.reapOne p = { m.reapOne p with zombies } := by
  unfold Machine.reapOne
  rw [retireFromPair_setZombies, retireFromChannel_setZombies]

theorem steps_reapOne (m : Machine σ) (p : Proc) (rest : Queue) (arrived : List Arrival)
    (dropped : Queue) :
    Steps (⟨{ m with zombies := p :: rest }, arrived, dropped⟩ : Ledger σ).scene
      (⟨{ m.reapOne p with zombies := rest }, arrived, dropped ++ [p]⟩ : Ledger σ).scene := by
  have retired : ({ m with zombies := p :: rest }.retireFromPair p.pid).zombies = p :: rest := by
    rw [retireFromPair_setZombies]
  have first := step_retireFromPair (m := { m with zombies := p :: rest }) arrived dropped
    (p := p) rfl
  have second := step_retireFromChannel arrived dropped retired
  rw [retireFromPair_setZombies, retireFromChannel_setZombies] at second
  exact .tail (.single (retireFromPair_setZombies m p.pid (p :: rest) ▸ first)) second

theorem steps_foldl_reapOne (ps : Queue) (m : Machine σ) (arrived : List Arrival)
    (dropped : Queue) :
    Steps (⟨{ m with zombies := ps }, arrived, dropped⟩ : Ledger σ).scene
      (⟨ps.foldl Machine.reapOne { m with zombies := [] }, arrived, dropped ++ ps⟩ :
        Ledger σ).scene := by
  induction ps generalizing m dropped with
  | nil =>
    rw [List.append_nil]
    exact .refl
  | cons p ps ih =>
    rw [List.foldl_cons, reapOne_setZombies, List.append_cons]
    exact (steps_reapOne m p ps arrived dropped).trans (ih _ _)

theorem steps_reap (m : Machine σ) (arrived : List Arrival) (dropped : Queue) :
    Steps (⟨m, arrived, dropped⟩ : Ledger σ).scene
      (⟨m.reap, arrived, dropped ++ m.zombies⟩ : Ledger σ).scene :=
  steps_foldl_reapOne m.zombies m arrived dropped

/-! ## Phases -/

theorem steps_phase [Workload σ] {cause : Cause} {phase : Phase}
    (h : m.phase cause phase = .ok m') :
    Steps (⟨m, arrived, dropped⟩ : Ledger σ).scene
      (⟨m', arrived ++ m.arrivalsOf phase, dropped ++ m.droppedBy phase⟩ : Ledger σ).scene := by
  cases phase with
  | priorityReset =>
    simp only [Machine.phase, Machine.arrivalsOf, Machine.droppedBy, List.append_nil] at h ⊢
    split at h
    case isTrue due =>
      rw [if_pos due]
      exact steps_resetPriorities h
    case isFalse early =>
      cases h
      rw [if_neg early, List.append_nil]
  | admission =>
    cases h
    simp only [Machine.arrivalsOf, Machine.droppedBy, List.append_nil, scene_admitNewcomers]
    exact .refl
  | preemption =>
    cases h
    simp only [Machine.arrivalsOf, Machine.droppedBy, List.append_nil]
    split
    · rw [scene_preempt]
    · exact .refl
  | dispatching =>
    cases h
    simp only [Machine.arrivalsOf, Machine.droppedBy, List.append_nil]
    split
    · rw [scene_dispatch (Option.isNone_iff_eq_none.1 ‹_›)]
    · exact .refl
  | reaping =>
    cases h
    simp only [Machine.arrivalsOf, Machine.droppedBy, List.append_nil]
    split
    · exact steps_reap m arrived dropped
    · rw [List.append_nil]

/-! ## Cycles -/

/-- Reports of deadlocks go into the journal only. -/
theorem foldl_reportDeadlock (found : List Deadlock) (m : Machine σ) :
    ∃ journal, found.foldl Machine.reportDeadlock m = { m with journal } := by
  induction found generalizing m with
  | nil => exact ⟨m.journal, rfl⟩
  | cons d found ih =>
    obtain ⟨journal, h⟩ := ih (m.reportDeadlock d)
    refine ⟨journal, h.trans ?_⟩
    unfold Machine.reportDeadlock
    split <;> rfl

theorem scan_eq (m : Machine σ) : ∃ journal, m.scan =
    { m with sinceScan := 0, monitor := (m.monitor.scan m.pairs m.locks).2, journal } :=
  foldl_reportDeadlock _ _

/-- A scan only concerns the monitor and the journal. -/
theorem scanIfDue_eq (m : Machine σ) : ∃ sinceScan monitor journal,
    m.scanIfDue = { m with sinceScan, monitor, journal } := by
  unfold Machine.scanIfDue
  split
  · obtain ⟨journal, scan⟩ := scan_eq m
    exact ⟨_, _, journal, scan⟩
  · exact ⟨m.sinceScan, m.monitor, m.journal, rfl⟩

theorem steps_scanIfDue (m : Machine σ) (arrived : List Arrival) (dropped : Queue) :
    Steps (⟨m, arrived, dropped⟩ : Ledger σ).scene
      (⟨m.scanIfDue, arrived, dropped⟩ : Ledger σ).scene := by
  unfold Machine.scanIfDue
  split
  · obtain ⟨journal, h⟩ := scan_eq m
    rw [h]
    exact .single .scan
  · exact .refl

/-- A scan goes unnoticed by a process that is about to take a step. -/
theorem scanIfDue_spec (m : Machine σ) (p₀ : Proc) (arrived : List Arrival) (dropped : Queue) :
    m.scanIfDue.running = m.running ∧ m.scanIfDue.cpuPc = m.cpuPc ∧
    m.scanIfDue.pairs = m.pairs ∧
    Steps (before m p₀ arrived dropped) (before m.scanIfDue p₀ arrived dropped) := by
  unfold Machine.scanIfDue
  split
  · obtain ⟨journal, h⟩ := scan_eq m
    rw [h]
    exact ⟨rfl, rfl, rfl, .single .scan⟩
  · exact ⟨rfl, rfl, rfl, .refl⟩

/-- A step of the running process changes its record and the counter of the CPU. -/
theorem exists_of_advance {p : Proc} (hp : m.running = some p) (h : m.advance = .ok m') :
    ∃ q pc, m' = { m with running := some q, cpuPc := pc } ∧
      (m.current p).Advances (m'.current q) := by
  unfold Machine.advance at h
  rw [hp] at h
  obtain ⟨pc, hpc, h⟩ := exists_of_bind_eq_ok h
  obtain ⟨-, rfl⟩ := Word.succ_eq_ok_iff.1 (Machine.eq_of_attempt hpc)
  split at h
  case isTrue below =>
    cases h
    exact ⟨p, m.cpuPc + 1, rfl, .step below⟩
  case isFalse above =>
    obtain ⟨wraps, hwraps, h⟩ := exists_of_bind_eq_ok h
    obtain ⟨-, rfl⟩ := Word.succ_eq_ok_iff.1 (Machine.eq_of_attempt hwraps)
    cases h
    exact ⟨{ p with wraps := p.wraps + 1 }, 0, rfl, .wrap (Nat.lt_of_not_le above)⟩

theorem advance_spec {p : Proc} (hp : m.running = some p) (h : m.advance = .ok m') :
    ∃ p', m'.running = some p' ∧ (m.current p).Advances (m'.current p') ∧
      ∀ arrived dropped, before m' (m.current p) arrived dropped =
        (⟨m, arrived, dropped⟩ : Ledger σ).scene := by
  obtain ⟨q, pc, rfl, advances⟩ := exists_of_advance hp h
  exact ⟨q, rfl, advances, fun arrived dropped => (scene_of_running (m.current p) hp).symm⟩

theorem steps_stepRunning {p : Proc} {cause : Option Cause} (hp : m.running = some p)
    (h : m.stepRunning = .ok (cause, m')) :
    Steps (⟨m, arrived, dropped⟩ : Ledger σ).scene (⟨m', arrived, dropped⟩ : Ledger σ).scene := by
  obtain ⟨m₁, h₁, h⟩ := exists_of_bind_eq_ok h
  obtain ⟨t, ht, h⟩ := exists_of_bind_eq_ok h
  obtain ⟨p', hp', advances, start⟩ := advance_spec (m := m.beginCycle) hp h₁
  obtain ⟨running, pc, pairs, scan⟩ := scanIfDue_spec m₁ (m.current p) arrived dropped
  have trap : p'.trapAt m₁.scanIfDue.cpuPc m₁.scanIfDue.pairs = .ok t := by
    rw [Machine.pendingTrap, running, hp'] at ht
    exact Machine.eq_of_attempt ht
  have current : m₁.scanIfDue.current p' = m₁.current p' := by
    rw [Machine.current, Machine.current, pc]
  have stepped : Stepped m₁.scanIfDue (m.current p) p' t :=
    ⟨running.trans hp', current ▸ advances, trap⟩
  have begun : (⟨m, arrived, dropped⟩ : Ledger σ).scene =
      before m₁ (m.current p) arrived dropped := (start arrived dropped).symm
  rw [begun]
  apply scan.trans
  cases t with
  | none =>
    cases h
    exact .single (step_goOn stepped fun t' ht' => by cases ht')
  | some t =>
    have handled : (m₁.scanIfDue.handleTrap t).2 = m' := congrArg Prod.snd (Except.ok.inj h)
    rw [← handled]
    exact .single (step_handleTrap stepped)

theorem step_completeIo {d : DeviceId} (h : m.completeIo d = .ok (some m')) :
    Step (⟨m, arrived, dropped⟩ : Ledger σ).scene (⟨m', arrived, dropped⟩ : Ledger σ).scene := by
  obtain ⟨dev, p, q, countdown, gen, hd, hq, rfl⟩ := Machine.exists_of_completeIo h
  have devices : (⟨m, arrived, dropped⟩ : Ledger σ).scene.devices[d.num]? = some (p :: q) := by
    rw [Ledger.scene, List.getElem?_map, hd, Option.map_some, hq]
  have free : cores m.newcomers + cores (m.ready.enqueue { p with pc := p.pc + 1 }).toList +
      cores m.onCpu = { p with pc := p.pc + 1 }.core ::ₘ
      (cores m.newcomers + cores m.ready.toList + cores m.onCpu) := by
    rw [ReadyQueue.cores_toList_enqueue, Multiset.add_cons, Multiset.cons_add]
  apply (Step.complete devices).congr
  simp only [Ledger.scene, Machine.emit, Machine.measure, List.map_set, ← free]
  rfl

theorem step_terminateIfDone {pid : Pid} (h : m.terminateIfDone pid = some m') :
    Step (⟨m, arrived, dropped⟩ : Ledger σ).scene (⟨m', arrived, dropped⟩ : Ledger σ).scene := by
  obtain ⟨p, running, -, done, rfl⟩ := Machine.exists_of_terminateIfDone h
  let ended : Proc := { p with pc := m.cpuPc, state := .terminated, stopped := true }
  have idle : (m.terminate p).running = none := rfl
  rw [scene_of_running p running, scene_of_idle p idle]
  exact Step.terminate (p := m.current p) (q := ended) rfl done rfl

/-! ## Runs -/

theorem steps_of_next [Workload σ] {mo mo' : Moment σ} (h : Moment.Next mo mo') :
    Steps mo.ledger.scene mo'.ledger.scene := by
  cases h with
  | boot h => exact steps_boot h
  | request h => exact steps_requestBatch _ _ h
  | schedule cause => exact .refl
  | @idleCycle l h => exact steps_scanIfDue l.machine.beginCycle.countIdle l.arrived l.dropped
  | busyCycle running h => exact steps_stepRunning running h
  | timer h => rw [scene_raiseTimer]
  | completion h done => exact .single (step_completeIo done)
  | phase h => exact steps_phase h
  | done => exact .refl
  | goOn h => exact .refl
  | terminate h => exact .single (step_terminateIfDone h)

theorem steps_of_path [Workload σ] {mo mo' : Moment σ}
    (h : Relation.ReflTransGen Moment.Next mo mo') :
    Steps mo.ledger.scene mo'.ledger.scene := by
  induction h with
  | refl => exact .refl
  | tail _ next ih => exact ih.trans (steps_of_next next)

theorem steps_of_reachable [Workload σ] {mo : Moment σ} (h : Moment.Reachable m mo) :
    Steps ({ machine := m } : Ledger σ).scene mo.ledger.scene := steps_of_path h

end Scene

/-- A process that raises a trap takes a step in the scene. -/
theorem Machine.Raises.exists_runs {p : Proc} {t : Trap} (h : m.Raises p t m')
    (arrived : List Arrival) (dropped : Queue) :
    ∃ p', (⟨m, arrived, dropped⟩ : Ledger σ).scene.Runs (m.current p) p' m.queued (some t) ∧
      m'.channels = m.channels := by
  obtain ⟨running, m₁, advance, rfl, trap⟩ := h
  obtain ⟨q, pc, rfl, advances⟩ := Scene.exists_of_advance (m := m.beginCycle) running advance
  let m₁ : Machine σ := { m.beginCycle with running := some q, cpuPc := pc }
  have scanned : m₁.scanIfDue.running = some q ∧ m₁.scanIfDue.cpuPc = pc ∧
      m₁.scanIfDue.pairs = m.pairs ∧ m₁.scanIfDue.channels = m.channels := by
    obtain ⟨sinceScan, monitor, journal, scan⟩ := Scene.scanIfDue_eq m₁
    rw [scan]
    exact ⟨rfl, rfl, rfl, rfl⟩
  obtain ⟨running₁, pc₁, pairs₁, channels₁⟩ := scanned
  refine ⟨m₁.current q, ⟨congrArg Scene.free (Scene.scene_of_running p running), advances, ?_⟩,
    channels₁⟩
  rw [Machine.pendingTrap, running₁, pc₁, pairs₁] at trap
  exact Machine.eq_of_attempt trap

end Mlfq
