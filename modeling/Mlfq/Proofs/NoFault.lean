import Mlfq.Proofs.Accounting
import Mlfq.Proofs.Members
import Mlfq.Proofs.Run.Arithmetic
import Mlfq.Proofs.Workload.Ranges
import Mlfq.Proofs.Workload.Supply

/-! # No call faults

With a workload of the library no call faults, whatever interrupts arrive at its checkpoints, as
long as the largest counters of the processes leave room for two more steps in a word and there are
fewer cycles than words. Every counter stays at most one past the largest one of its process. -/

namespace Mlfq

variable {σ : Type} {limit : Nat}

namespace Ledger

/-- The books of a machine that does not fault: whoever comes is new and has no larger counter than
`limit`, and all counters are in range. -/
structure Sound [Workload σ] (limit : Nat) (l : Ledger σ) : Prop where
  tidy : l.scene.Tidy
  supplied : Workload.Supplies limit l.machine.workload
  arrived : ∀ a ∈ l.arrived, ∀ p ∈ a.procs, p.NewWithin limit
  inRange : ∀ x ∈ l.machine.roll l.dropped, Station.InRange limit l.machine.iteration x
  saved : l.machine.Saved

variable [Workload σ] {l : Ledger σ} {p : Proc}

namespace Sound

theorem start {config : Config} {workload : σ} {logLevel : Option Level}
    (supplied : Workload.Supplies limit workload) :
    ({ machine := .start config workload logLevel } : Ledger σ).Sound limit where
  tidy := (Scene.fresh_start config workload logLevel).tidy
  supplied := supplied
  arrived a ha := by cases ha
  inRange x hx := by
    rw [Story.roll_start] at hx
    exact absurd hx (Multiset.notMem_zero x)
  saved := Machine.saved_of_idle rfl

/-! ## Where records are -/

/-- A record in a place is in range. -/
theorem record (h : l.Sound limit) {place : Place} (hp : p ∈ l.machine.resumingAt place) :
    Station.InRange limit l.machine.iteration (place.station, p.core) :=
  h.inRange _ (mem_roll_of_mem_resumingAt h.tidy hp)

theorem current (h : l.Sound limit) (running : l.machine.running = some p) :
    Station.InRange limit l.machine.iteration (.cpu, l.machine.current p) :=
  h.inRange _ (Story.mem_roll_of_running l.dropped running)

theorem ready (h : l.Sound limit) (hp : p ∈ l.machine.ready.toList) : p.pc ≤ p.maxPc + 1 := by
  have queued : p.core ∈ l.machine.queued := Multiset.mem_add.2 (.inr (Queue.core_mem_cores hp))
  exact (h.inRange (.line, p.core) (Station.mem_roll.2 queued)).pc

/-- A request on a device was made at a point of the process. -/
theorem request (h : l.Sound limit) {device : DeviceId} {d : Device}
    (found : l.machine.devices[device.num]? = some d) (hp : p ∈ d.queue) :
    p.pc ≤ limit := by
  have here : p ∈ l.machine.resumingAt (.device device) := by
    show p ∈ ((l.machine.devices[device.num]?).map (·.queue)).getD []
    rw [found]
    exact hp
  have inRange := h.record here
  exact (inRange.request rfl).trans inRange.maxPc

theorem answered (h : l.Sound limit) : ∃ batch,
    Workload.batch l.machine.workload l.machine.pids l.machine.census = .ok batch := by
  obtain ⟨batch, answer, -⟩ := h.supplied.exists_batch l.machine.pids l.machine.census
  exact ⟨batch, answer⟩

/-! ## Moments -/

/-- Whatever happens next keeps the counters in range. -/
theorem next {mo mo' : Moment σ} (h : mo.ledger.Sound limit) (next : Moment.Next mo mo')
    (saved : mo'.ledger.machine.Saved) : mo'.ledger.Sound limit := by
  obtain ⟨supplied, arrived⟩ : Workload.Supplies limit mo'.ledger.machine.workload ∧
      ∀ a ∈ mo'.ledger.arrived, ∀ p ∈ a.procs, p.NewWithin limit := by
    cases next.shift with
    | keep backdrop arrived | ending p backdrop arrived | drop backdrop arrived =>
      obtain ⟨workload, -⟩ := Machine.of_backdrop backdrop
      rw [workload, arrived]
      exact ⟨h.supplied, h.arrived⟩
    | come batch answer backdrop arrived =>
      obtain ⟨workload, -⟩ := Machine.of_backdrop backdrop
      obtain ⟨batch', answer', new, still⟩ :=
        h.supplied.exists_batch mo.ledger.machine.pids mo.ledger.machine.census
      obtain rfl : batch = batch' := Except.ok.inj (answer.symm.trans answer')
      rw [workload, arrived]
      refine ⟨still, fun a ha => ?_⟩
      exact (List.mem_append.1 ha).elim (h.arrived a) (new a)
  let c : Chronicle σ := ⟨mo, []⟩
  let c' : Chronicle σ := ⟨mo', [] ++ mo.begun mo'⟩
  have small : c'.story.Small limit := by
    intro p hp
    obtain ⟨a, ha, here⟩ := List.mem_flatMap.1 hp
    exact arrived a ha p here
  have alone : c.story.onCpu.card ≤ 1 := by
    rw [Chronicle.story, Story.onCpu_story]
    cases c.machine.runningPid? <;> simp
  have told : Story.Next c.story c'.story := Story.next_of_next h.tidy ⟨next, rfl⟩
  have before : c.story.InRange limit := h.inRange
  exact ⟨h.tidy.steps (Scene.steps_of_next next), supplied, arrived,
    before.next alone small told, saved⟩

end Sound
end Ledger

/-! ## Calls -/

namespace Machine

/-- The machine has gone through `n` cycles, and its books are those of one that does not fault. -/
def Sound [Workload σ] (limit n : Nat) (m : Machine σ) : Prop :=
  ∃ arrived dropped, (⟨m, arrived, dropped⟩ : Ledger σ).Sound limit ∧ m.iteration = n

namespace Sound

variable [Workload σ] {n : Nat} {m m' : Machine σ} {p : Proc}

theorem raiseTimer (h : m.Sound limit n) : m.raiseTimer.Sound limit n := by
  obtain ⟨arrived, dropped, sound, count⟩ := h
  have next : Moment.Next ⟨⟨m, arrived, dropped⟩, []⟩
      ⟨⟨m.raiseTimer, arrived, dropped⟩, [.phases .timer Phase.all]⟩ := .timer trivial
  refine ⟨arrived, dropped, sound.next next fun q hq => ?_, count⟩
  obtain ⟨p, running, rfl⟩ := Option.map_eq_some_iff.1 hq
  exact (sound.current running).pc

theorem completeIo (h : m.Sound limit n) (small : limit < Word.max) (device : DeviceId) :
    Succeeds (∀ m' ∈ ·, m'.Sound limit n) (m.completeIo device) := by
  obtain ⟨arrived, dropped, sound, count⟩ := h
  have heads : ∀ d, m.devices[device.num]? = some d → ∀ p ∈ d.queue, p.pc < Word.max :=
    fun d found p hp => (sound.request found hp).trans_lt small
  obtain ⟨done, complete⟩ := exists_completeIo heads
  refine ⟨done, complete, fun m' hm' => ?_⟩
  obtain rfl : done = some m' := hm'
  have next : Moment.Next ⟨⟨m, arrived, dropped⟩, []⟩
      ⟨⟨m', arrived, dropped⟩, [.phases .ioCompletion Phase.all]⟩ := .completion trivial complete
  obtain ⟨d, p, rest, countdown, gen, -, -, rfl⟩ := exists_of_completeIo complete
  exact ⟨arrived, dropped, sound.next next (sound.saved.of_eq rfl), count⟩

theorem phase (h : m.Sound limit n) (cause : Cause) (phase : Phase) :
    Succeeds (Sound limit n) (m.phase cause phase) := by
  obtain ⟨arrived, dropped, sound, rfl⟩ := h
  obtain ⟨m', done⟩ := exists_phase sound.answered cause phase
  have next : Moment.Next ⟨⟨m, arrived, dropped⟩, [.phases cause [phase]]⟩
      ⟨⟨m', arrived ++ m.arrivalsOf phase, dropped ++ m.droppedBy phase⟩, [.phases cause []]⟩ :=
    .phase done
  have saved := sound.saved.phase (fun p hp => sound.ready hp) done
  have acts := Story.acts_phase (Story.keyed_of_tidy sound.tidy) done [] [] []
  exact ⟨m', done, _, _, sound.next next saved, acts.frame.iteration⟩

theorem requestBatch (h : m.Sound limit n) : Succeeds (Sound limit n ·.2) m.requestBatch := by
  obtain ⟨arrived, dropped, sound, rfl⟩ := h
  obtain ⟨⟨k, m'⟩, done⟩ := exists_requestBatch sound.answered
  have saved := sound.saved.of_eq (running_requestBatch done)
  have acts := Story.acts_requestBatch done [] [] [] none
  exact ⟨(k, m'), done, _, dropped, sound.next (.request done) saved, acts.frame.iteration⟩

theorem boot (h : m.Sound limit n) : Succeeds (Sound limit n) m.boot := by
  obtain ⟨arrived, dropped, sound, rfl⟩ := h
  obtain ⟨m', done⟩ := exists_boot sound.answered
  have acts := Story.acts_boot done [] [] [] none
  have saved : m'.Saved := by
    obtain ⟨⟨k, m₁⟩, request, logged⟩ := exists_of_bind_eq_ok done
    cases logged
    have same : m₁.running = m.running := running_requestBatch request
    exact sound.saved.of_eq same
  exact ⟨m', done, _, dropped, sound.next (.boot done) saved, acts.frame.iteration⟩

theorem idle (h : m.Sound limit n) (idle : m.running = none) :
    m.beginCycle.countIdle.scanIfDue.Sound limit (n + 1) := by
  obtain ⟨arrived, dropped, sound, rfl⟩ := h
  have next := sound.next (Moment.Next.idleCycle idle)
  obtain ⟨sinceScan, monitor, journal, scan⟩ := Scene.scanIfDue_eq m.beginCycle.countIdle
  rw [scan] at next ⊢
  exact ⟨arrived, dropped, next (saved_of_idle idle), rfl⟩

/-- A cycle gets through if there is a next wrap. -/
theorem stepRunning (h : m.Sound limit n) (small : limit + 1 < Word.max) (few : n < Word.max)
    (running : m.running = some p) : Succeeds (Sound limit (n + 1) ·.2) m.stepRunning := by
  obtain ⟨arrived, dropped, sound, rfl⟩ := h
  obtain ⟨maxPc, pc, -, wraps⟩ := sound.current running
  have maxPc : p.maxPc ≤ limit := maxPc
  have pc : m.cpuPc ≤ p.maxPc + 1 := pc
  obtain ⟨⟨cause, m'⟩, done, saved⟩ := succeeds_stepRunning running (by omega)
    (wraps.trans_lt few) (by omega) sound.saved
  obtain ⟨s, begins, acts⟩ := Story.exists_of_stepRunning (Story.keyed_of_tidy sound.tidy) running
    done [] [] []
  exact ⟨(cause, m'), done, arrived, dropped, sound.next (.busyCycle running done) saved,
    acts.frame.iteration.trans begins.iteration⟩

theorem terminateIfDone (h : m.Sound limit n) {pid : Pid} (done : m.terminateIfDone pid = some m') :
    m'.Sound limit n := by
  obtain ⟨arrived, dropped, sound, count⟩ := h
  have next : Moment.Next ⟨⟨m, arrived, dropped⟩, [.closeCycle pid]⟩
      ⟨⟨m', arrived, dropped⟩, [.phases .termination Phase.all]⟩ := .terminate done
  obtain ⟨p, -, -, -, rfl⟩ := exists_of_terminateIfDone done
  exact ⟨arrived, dropped, sound.next next (saved_of_idle rfl), count⟩

end Sound

/-- Machines with sound books get through all that is done between two checkpoints. -/
theorem endures [Workload σ] (small : limit + 1 < Word.max) :
    Endures Word.max (Sound limit (σ := σ)) where
  carries _ :=
    { timer := Sound.raiseTimer
      completion device good := good.completeIo (Nat.lt_of_succ_lt small) device
      phase cause phase good := good.phase cause phase }
  boot := Sound.boot
  request := Sound.requestBatch
  idle := Sound.idle
  busy good few running := good.stepRunning small few running
  ending good done := good.terminateIfDone done

/-- Whatever is looked up by its number is there, numbers are drawn from ranges that have some, and
no counter is more than one past the largest one of its process. -/
structure WithinBounds (m : Machine σ) : Prop where
  /-- The counters with which processes go on, and the one saved last for the running process. -/
  pc : ∀ place, ∀ p ∈ m.recordsAt place, p.pc ≤ p.maxPc + 1
  cpuPc : ∀ p, m.running = some p → m.cpuPc ≤ p.maxPc + 1
  /-- The levels of the ready queue, by which records are queued. -/
  level : ∀ p : Proc, p.priority.val < m.ready.levels.toList.length
  /-- The devices, in requests that are taken and in requests that are finished. -/
  request : ∀ device, (m.startIo device).1 = true → device.num < m.devices.length
  completion : ∀ device m', m.completeIo device = .ok (some m') → device.num < m.devices.length
  /-- The members of the mutex pairs, in a row. -/
  search : ∀ pid, MemberRow.search m.pairs.members pid = .ok (m.pairs.find? pid)
  partner : ∀ pid, MemberRow.partner m.pairs.members pid = .ok (m.pairs.partner? pid)
  retire : ∀ pid, MemberRow.retire m.pairs.members pid =
    .ok ((MutexPairs.retire pid m.pairs.pairs).1,
      MutexPairs.members ⟨(MutexPairs.retire pid m.pairs.pairs).2⟩)
  /-- The numbers that are drawn, for the devices and in a batch. -/
  countdown : ∀ priority, m.rollCountdown priority = .ok (m.drawCountdown priority)
  batch : ∀ (w : RandomWorkload) (pids : PidAllocator) (census : Census),
    w.roll pids census = Workload.batch w pids census

theorem Sound.withinBounds [Workload σ] {n : Nat} {m : Machine σ} (h : m.Sound limit n) :
    m.WithinBounds := by
  obtain ⟨arrived, dropped, sound, -⟩ := h
  constructor
  case pc =>
    intro place p hp
    by_cases cpu : place = .cpu
    · subst cpu
      exact sound.saved p (Option.mem_toList.1 hp)
    · rw [← resumingAt_of_ne_cpu cpu] at hp
      exact (sound.record hp).pc
  case cpuPc => exact fun p running => (sound.current running).pc
  case level =>
    intro p
    rw [Vector.length_toList]
    exact p.priority.isLt
  case request =>
    intro device parked
    unfold Machine.startIo at parked
    split at parked
    · rename_i d p found running
      exact (List.getElem?_eq_some_iff.1 found).1
    · cases parked
  case completion =>
    intro device m' done
    obtain ⟨d, p, rest, countdown, gen, found, -⟩ := exists_of_completeIo done
    exact (List.getElem?_eq_some_iff.1 found).1
  case search => exact m.pairs.search_members
  case partner => exact m.pairs.partner_members
  case retire => exact m.pairs.retire_members
  case countdown => exact m.rollCountdown_eq
  case batch => exact RandomWorkload.roll_eq_draw

end Machine

/-- No call faults, and whatever is looked up by its number is there. -/
theorem neverFaults_of_within [Workload σ] {config : Config} {workload : σ}
    {logLevel : Option Level} (within : Workload.Within (Word.limit - 3) workload)
    (cs : List Command) (few : cs.countP (·.isTick) < Word.limit - 1) :
    ∃ m, (Machine.start config workload logLevel).performAll cs = .ok m ∧ m.WithinBounds := by
  have endures : Machine.Endures Word.max (Machine.Sound (Word.limit - 3) (σ := σ)) :=
    Machine.endures (by decide)
  have start : (Machine.start config workload logLevel).Sound (Word.limit - 3) 0 :=
    ⟨[], [], .start within.supplies, rfl⟩
  have count : 0 + cs.countP (·.isTick) ≤ Word.max := by
    rw [Nat.zero_add]
    exact few.le
  obtain ⟨m, done, sound⟩ := endures.performAll cs count start
  exact ⟨m, done, sound.withinBounds⟩

/-- A run with a process of the largest counter that there may be. -/
theorem neverFaults_of_within_largest :
    Workload.Within (Word.limit - 3) (⟨[[.io (Word.limit - 3) 1 [[1]]]]⟩ : ScriptedWorkload) ∧
    [Command.boot, .tick [[.timer]], .tick [], .ioInterrupt ⟨0⟩ []].countP (·.isTick) <
      Word.limit - 1 ∧
    ∃ m, (Machine.start {} (⟨[[.io (Word.limit - 3) 1 [[1]]]]⟩ : ScriptedWorkload) none).performAll
        [.boot, .tick [[.timer]], .tick [], .ioInterrupt ⟨0⟩ []] = .ok m ∧ m.WithinBounds := by
  have within : Workload.Within (Word.limit - 3)
      (⟨[[.io (Word.limit - 3) 1 [[1]]]]⟩ : ScriptedWorkload) := .scripted _ (by decide)
  have few : [Command.boot, .tick [[.timer]], .tick [], .ioInterrupt ⟨0⟩ []].countP (·.isTick) <
      Word.limit - 1 := by decide
  exact ⟨within, few, neverFaults_of_within within _ few⟩

end Mlfq
