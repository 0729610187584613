import Mlfq.Proofs.Accounting
import Mlfq.Proofs.Course.Standing

/-! # The diary of a run

In a cycle of its own a process comes to the next point of its way, and it is parked there if that
is a point at which it asks for a device. So in every run the diary of a process is its way. -/

namespace Mlfq

open Queue (cores)

variable {σ : Type}

namespace Machine

variable {m m' : Machine σ} {p q : Proc}

/-! ## Requests -/

theorem request?_eq (running : m.running = some p) (solitary : p.plan.Solitary) :
    m.request? = p.asks m.devices.length m.cpuPc := by
  unfold request? pendingTrap
  rw [running]
  simp only [Proc.trapAt, Proc.asks]
  cases plan : p.plan with
  | none => rfl
  | io sets =>
    simp only [attempt]
    cases sets.findIdx? (·.contains m.cpuPc) <;> rfl
  | mutex | rendezvous => simp [plan, TrapPlan.Solitary] at solitary

theorem request?_eq_some_iff {d : DeviceId} :
    m.request? = some d ↔ m.pendingTrap = .ok (some (.io d)) ∧ d.num < m.devices.length := by
  unfold request?
  split
  case h_1 device trap =>
    rw [trap]
    constructor
    · intro taken
      split at taken
      case isTrue found =>
        cases taken
        exact ⟨rfl, found⟩
      case isFalse => cases taken
    · rintro ⟨same, found⟩
      cases same
      exact if_pos found
  case h_2 other => exact iff_of_false nofun fun h => other d h.1

/-- A request is written down when the running process raises the trap for it and the device
exists. -/
theorem beat?_request_iff {b : Beat} (beat : m.beat? = some b) {d : DeviceId} :
    b.request = some d ↔ d.num < m.devices.length ∧
      ∃ p m', m.Raises p (.io d) m' ∧ p.pid = b.pid ∧ m'.cpuPc = b.pc := by
  unfold beat? at beat
  split at beat
  case h_2 => cases beat
  case h_1 p m₁ running advance =>
    cases beat
    have devices : m₁.devices.length = m.devices.length := by
      obtain ⟨q, pc, rfl, -⟩ := Scene.exists_of_advance (m := m.beginCycle) running advance
      rfl
    -- A scan comes between the step and the trap, but the trap does not depend on it.
    obtain ⟨sinceScan, monitor, journal, scan⟩ := Scene.scanIfDue_eq m₁
    have cpuPc : m₁.scanIfDue.cpuPc = m₁.cpuPc := by rw [scan]
    have trap : m₁.scanIfDue.pendingTrap = .ok (some (.io d)) ↔
        m₁.pendingTrap = .ok (some (.io d)) := by
      rw [scan]
      simp only [pendingTrap]
      cases m₁.running with
      | none => rfl
      | some q =>
        simp only [attempt]
        cases q.trapAt m₁.cpuPc m₁.pairs <;> simp
    rw [request?_eq_some_iff, devices, ← trap, and_comm]
    refine and_congr_right fun _ => ⟨fun raised => ?_, ?_⟩
    · exact ⟨p, m₁.scanIfDue, ⟨running, m₁, advance, rfl, raised⟩, rfl, cpuPc⟩
    · rintro ⟨p', m', ⟨-, m₂, advance', rfl, raised⟩, -, -⟩
      rw [advance] at advance'
      cases advance'
      exact raised

theorem startIo_of_le {d : DeviceId} (missing : m.devices.length ≤ d.num) :
    m.startIo d = (false, m) := by
  unfold startIo
  rw [List.getElem?_eq_none missing]

/-- A device that exists takes the request. -/
theorem startIo_of_lt {d : DeviceId} (running : m.running = some p) (dropped : Queue)
    (found : d.num < m.devices.length) :
    (m.startIo d).1 = true ∧ (.device, m.current p) ∈ (m.startIo d).2.roll dropped := by
  unfold startIo
  rw [running, List.getElem?_eq_getElem found]
  refine ⟨rfl, Station.mem_roll.2 ?_⟩
  exact Queue.core_mem_cores (p := { p with pc := m.cpuPc, state := .blocked })
    (List.mem_flatten.2 ⟨_, List.mem_map.2 ⟨_, List.mem_set found _, rfl⟩,
      List.mem_append_right _ List.mem_cons_self⟩)

/-- A process that shares nothing raises no traps but its requests. -/
theorem exists_io_of_trapAt {pc : Nat} {pairs : MutexPairs} {t : Trap}
    (solitary : p.plan.Solitary) (h : p.trapAt pc pairs = .ok (some t)) : ∃ d, t = .io d := by
  unfold Proc.trapAt at h
  cases plan : p.plan with
  | none =>
    rw [plan] at h
    cases h
  | io sets =>
    simp only [plan, Except.ok.injEq, Option.map_eq_some_iff] at h
    obtain ⟨d, -, rfl⟩ := h
    exact ⟨⟨d⟩, rfl⟩
  | mutex | rendezvous => simp [plan, TrapPlan.Solitary] at solitary

/-- The process that has come to its point stays on the CPU, or goes to the device that it asks
for. -/
theorem exists_of_pendingTrap {cause : Option Cause} {t : Option Trap}
    (running : m.running = some p) (solitary : p.plan.Solitary) (trap : m.pendingTrap = .ok t)
    (dropped : Queue)
    (handled : (cause, m') = t.elim (none, m) m.handleTrap) :
    (m.request? = none ∧ cause = none ∧ (.cpu, m.current p) ∈ m'.roll dropped) ∨
      (m.request?.isSome = true ∧ cause.isSome = true ∧
        (.device, m.current p) ∈ m'.roll dropped) := by
  unfold request?
  rw [trap]
  cases t with
  | none =>
    cases handled
    exact .inl ⟨rfl, rfl, Story.mem_roll_of_running dropped running⟩
  | some t =>
    rw [pendingTrap, running] at trap
    obtain ⟨d, rfl⟩ := exists_io_of_trapAt solitary (eq_of_attempt trap)
    let m₁ := m.measure fun c => { c with traps := c.traps.increment (Trap.io d).label }
    have handled : (cause, m') = m.handleTrap (.io d) := handled
    simp only [handleTrap, Prod.mk.injEq] at handled
    obtain ⟨rfl, rfl⟩ := handled
    by_cases found : d.num < m.devices.length
    · obtain ⟨parked, there⟩ := startIo_of_lt (m := m₁) running dropped found
      refine .inr ⟨by simp [found], ?_, there⟩
      rw [parked]
      rfl
    · have missing := startIo_of_le (m := m₁) (Nat.not_lt.1 found)
      rw [missing]
      exact .inl ⟨if_neg found, rfl, Story.mem_roll_of_running (m := m₁) dropped running⟩

/-- A cycle of a process that shares nothing. -/
theorem exists_beat {cause : Option Cause} (running : m.running = some p)
    (solitary : p.plan.Solitary) (h : m.stepRunning = .ok (cause, m')) (dropped : Queue) :
    ∃ p', (m.current p).Advances p' ∧
      m.beat? = some ⟨p.pid, p'.pc, p'.asks m.devices.length p'.pc⟩ ∧
      ((p'.asks m.devices.length p'.pc = none ∧ cause = none ∧ (.cpu, p') ∈ m'.roll dropped) ∨
        ((p'.asks m.devices.length p'.pc).isSome = true ∧ cause.isSome = true ∧
          (.device, p') ∈ m'.roll dropped)) := by
  obtain ⟨m₁, advance, h⟩ := exists_of_bind_eq_ok h
  obtain ⟨t, trap, h⟩ := exists_of_bind_eq_ok h
  obtain ⟨q, pc, rfl, advances⟩ := Scene.exists_of_advance (m := m.beginCycle) running advance
  obtain ⟨sinceScan, monitor, journal, scan⟩ :=
    Scene.scanIfDue_eq { m.beginCycle with running := some q, cpuPc := pc }
  rw [scan] at trap h
  let m₂ : Machine σ :=
    { m.beginCycle with running := some q, cpuPc := pc, sinceScan, monitor, journal }
  have solitary' : q.plan.Solitary := by
    have plan : q.plan = p.plan := advances.plan_eq
    rwa [plan]
  have request : m₂.request? = q.asks m.devices.length pc := request?_eq (m := m₂) rfl solitary'
  have handled : (cause, m') = t.elim (none, m₂) m₂.handleTrap := by
    cases t <;> exact (Except.ok.inj h).symm
  refine ⟨m₂.current q, advances, ?_, ?_⟩
  · have before : Machine.request? { m.beginCycle with running := some q, cpuPc := pc } =
        q.asks m.devices.length pc := request?_eq rfl solitary'
    simp only [beat?, running, advance, before]
    rfl
  · have cases := exists_of_pendingTrap (m := m₂) rfl solitary' trap dropped handled
    rw [request] at cases
    exact cases

theorem pid_of_beat? {b : Beat} (h : m.beat? = some b) : m.runningPid? = some b.pid := by
  unfold beat? at h
  split at h
  case h_1 p m₁ running advance =>
    cases h
    rw [runningPid?, running]
    rfl
  case h_2 => cases h

end Machine

/-- The number of devices never changes. -/
theorem Scene.length_devices_of_steps {s s' : Scene} (steps : Steps s s') :
    s'.devices.length = s.devices.length := by
  induction steps with
  | refl => rfl
  | tail _ step ih =>
    cases step with
    | request | complete => exact List.length_set.trans ih
    | dissolve => rwa [devices_dropLock, devices_dropLock]
    | _ => exact ih

namespace Story

variable {s s' : Story} {devices : Nat} {pid : Pid} {bs : List Beat}

/-- A process stands where one more cycle has led it. -/
theorem Follows.own (h : s.Follows devices pid bs) (idle : s.due = none) {p p' : Proc}
    (here : (.cpu, p) ∈ s.roll) (own : p.pid = pid) (solitary : p.plan.Solitary)
    (advances : p.Advances p') (proper : s'.Proper) (distinct : s'.Distinct)
    (there : (p'.asks devices p'.pc = none ∧ s'.due = some pid ∧ (.cpu, p') ∈ s'.roll) ∨
      ((p'.asks devices p'.pc).isSome = true ∧ (.device, p') ∈ s'.roll)) :
    s'.Follows devices pid (bs ++ [⟨pid, p'.pc, p'.asks devices p'.pc⟩]) := by
  have before := h.stands _ here own solitary
  have heldUp : Beat.HeldUp p'.terminateAfter bs := by
    rw [advances.terminateAfter_eq]
    exact before.heldUp nofun (by rw [idle]; exact nofun)
  have walks := before.walks
  rw [if_neg nofun] at walks
  have walked : p'.Walks devices (bs ++ [⟨pid, p'.pc, p'.asks devices p'.pc⟩])
      (p'.leavesFrom devices p'.pc) :=
    Proc.Walks.snoc (walks.congr advances.plan_eq advances.maxPc_eq) advances.pc_eq rfl
  have wraps : p'.wraps = Beat.wraps (bs ++ [⟨pid, p'.pc, p'.asks devices p'.pc⟩]) := by
    rw [Beat.wraps_append, Beat.wraps_singleton, advances.wraps_eq]
    exact congrArg (· + _) before.wraps
  have earlier : Beat.HeldUp p'.terminateAfter
      (bs ++ [Beat.mk pid p'.pc (p'.asks devices p'.pc)]).dropLast := by
    rwa [List.dropLast_concat]
  have own' : p'.pid = pid := advances.pid_eq.trans own
  rcases there with ⟨quiet, due, mem⟩ | ⟨parked, mem⟩
  · refine ⟨fun x hx pid' _ => ?_, fun unknown => absurd (own' ▸ proper.pid_mem mem) unknown⟩
    obtain rfl := proper.eq_of_pid_eq distinct mem hx (own'.trans pid'.symm)
    refine ⟨?_, wraps, earlier, nofun, fun _ => .inr ⟨rfl, pid' ▸ due⟩⟩
    rwa [Proc.leavesFrom_none (by rw [quiet]; rfl)] at walked
  · refine ⟨fun x hx pid' _ => ?_, fun unknown => absurd (own' ▸ proper.pid_mem mem) unknown⟩
    obtain rfl := proper.eq_of_pid_eq distinct mem hx (own'.trans pid'.symm)
    refine ⟨?_, wraps, earlier, nofun, fun _ => .inl (heldUp.snoc parked)⟩
    rwa [Proc.leavesFrom_some parked] at walked

/-- A process that shares something is not followed. -/
theorem follows_of_not_solitary (proper : s.Proper) (distinct : s.Distinct) {q : Proc}
    (arrived : q ∈ s.arrived) (own : q.pid = pid) (shares : ¬q.plan.Solitary) :
    s.Follows devices pid bs := by
  refine ⟨fun x hx own' solitary => absurd ?_ shares, fun unknown => absurd ?_ unknown⟩
  · have outline := proper.outline_eq distinct hx arrived (own'.trans own.symm)
    exact (Proc.solitary_iff_of_outline_eq outline).1 solitary
  · exact List.mem_map.2 ⟨q, arrived, own⟩

end Story

/-! ## Runs -/

/-- A process of the library that is I/O-bound or is to end shares nothing. -/
theorem Arrival.Library.solitary {a : Arrival} (h : a.Library) {p : Proc} (hp : p ∈ a.procs)
    (alone : p.kind = .ioBound ∨ 0 < p.terminateAfter) : p.plan.Solitary := by
  cases h with
  | compute | io =>
    rw [List.mem_singleton.1 hp]
    trivial
  | mutexPair | rendezvousPair =>
    rcases List.mem_pair.1 hp with rfl | rfl
    all_goals
      rcases alone with io | ends
      · cases io
      · exact absurd ends (Nat.lt_irrefl 0)

/-- The story at a moment of a run, without the cycles. -/
def Moment.story (mo : Moment σ) : Story := Chronicle.story ⟨mo, []⟩

variable [Workload σ]

/-- A cycle begins while nothing runs, or it is that of the running process. -/
theorem Moment.Next.cases_of_begun {mo mo' : Moment σ} (next : Next mo mo')
    (keyed : Story.Keyed mo.ledger.machine)
    (begun : mo'.ledger.machine.iteration ≠ mo.ledger.machine.iteration) :
    mo.pending = [] ∧ (mo.ledger.machine.running = none ∨
      ∃ p cause, mo.ledger.machine.running = some p ∧
        mo.ledger.machine.stepRunning = .ok (cause, mo'.ledger.machine) ∧
        (cause = none → Duty.due mo'.pending = some p.pid)) := by
  cases next with
  | boot done => exact absurd (Story.acts_boot done [] [] [] none).frame.iteration begun
  | request done => exact absurd (Story.acts_requestBatch done [] [] [] none).frame.iteration begun
  | schedule | timer | done | goOn => exact absurd rfl begun
  | idleCycle idle => exact ⟨rfl, .inl idle⟩
  | @busyCycle l p cause m running done =>
    refine ⟨rfl, .inr ⟨p, cause, running, done, ?_⟩⟩
    rintro rfl
    rfl
  | completion _ done => exact absurd (Story.acts_completeIo done [] [] []).frame.iteration begun
  | phase done => exact absurd (Story.acts_phase keyed done [] [] []).frame.iteration begun
  | terminate done =>
    obtain ⟨p, rest, -, -, -, story⟩ := Story.exists_of_terminateIfDone done [] [] []
    exact absurd (congrArg Story.iteration story) begun

variable {config : Config} {workload : σ} {logLevel : Option Level}

theorem Moment.proper_of_reachable [Workload.Library σ] {mo : Moment σ}
    (reachable : Reachable (.start config workload logLevel) mo) :
    mo.story.Proper ∧ mo.story.Distinct := by
  obtain ⟨-, different⟩ := distinct_of_library reachable
  obtain ⟨cycles, chronicle⟩ := Chronicle.exists_reachable reachable
  have proper := (Story.proper_opening config).steps (Story.steps_of_reachable chronicle)
  exact ⟨proper, Story.distinct_story (c := ⟨mo, cycles⟩) different⟩

namespace Diary

variable {d d' : Diary σ} {pid : Pid}

/-- Nothing is written down for a process that does not run. -/
theorem Next.history_eq (next : Next d d')
    (other : d'.moment.ledger.machine.iteration = d.moment.ledger.machine.iteration ∨
      d.moment.ledger.machine.runningPid? ≠ some pid) :
    d'.history pid = d.history pid ∧
      (d.moment.begun d'.moment).count (some pid) = 0 := by
  have beats : (d.moment.beats d'.moment).filter (·.pid = pid) = [] := by
    unfold Moment.beats
    split
    · rfl
    · rw [List.filter_eq_nil_iff]
      intro b hb own
      have running := Machine.pid_of_beat? (Option.mem_toList.1 hb)
      rw [decide_eq_true_eq] at own
      rw [own] at running
      exact other.elim ‹_› fun ne => ne running
  refine ⟨?_, ?_⟩
  · rw [history, next.2, List.filter_append, beats, List.append_nil]
    rfl
  · unfold Moment.begun
    split
    · rfl
    · rw [List.count_singleton, if_neg]
      rw [beq_iff_eq]
      exact other.resolve_left ‹_›

/-- What a process that shares nothing does in a cycle of its own is written down. -/
theorem Next.history_own (next : Next d d') {b : Beat}
    (begun : d'.moment.ledger.machine.iteration ≠ d.moment.ledger.machine.iteration)
    (beat : d.moment.ledger.machine.beat? = some b) (own : b.pid = pid) :
    d'.history pid = d.history pid ++ [b] := by
  rw [history, next.2, List.filter_append, Moment.beats, if_neg begun, beat]
  simp [history, own]

/-- A cycle of its own takes a process that shares nothing along its way. -/
theorem Next.follows_own (next : Next d d') {p : Proc} {cause : Option Cause}
    (h : d.moment.story.Follows d.moment.ledger.machine.devices.length p.pid (d.history p.pid))
    (rest : d.moment.pending = []) (running : d.moment.ledger.machine.running = some p)
    (begun : d'.moment.ledger.machine.iteration ≠ d.moment.ledger.machine.iteration)
    (done : d.moment.ledger.machine.stepRunning = .ok (cause, d'.moment.ledger.machine))
    (closing : cause = none → Duty.due d'.moment.pending = some p.pid)
    (solitary : p.plan.Solitary) (proper : d'.moment.story.Proper)
    (distinct : d'.moment.story.Distinct) :
    d'.moment.story.Follows d.moment.ledger.machine.devices.length p.pid (d'.history p.pid) := by
  obtain ⟨p', advances, beat, there⟩ :=
    Machine.exists_beat running solitary done d'.moment.ledger.dropped
  have idle : d.moment.story.due = none := congrArg Duty.due rest
  have here := Story.mem_roll_of_running d.moment.ledger.dropped running
  rw [next.history_own begun beat rfl]
  refine h.own idle here rfl solitary advances proper distinct ?_
  rcases there with ⟨quiet, goesOn, mem⟩ | ⟨parked, -, mem⟩
  · exact .inl ⟨quiet, closing goesOn, mem⟩
  · exact .inr ⟨parked, mem⟩

/-- In every run of a library workload, a process that shares nothing stands where its diary has led
it. -/
theorem Reachable.follows [Workload.Library σ]
    (reachable : Reachable (.start config workload logLevel) d) (pid : Pid) :
    d.moment.story.Follows config.ioDevices pid (d.history pid) := by
  induction reachable with
  | refl =>
    refine ⟨fun x hx => ?_, fun _ => rfl⟩
    have nobody : x ∈ (0 : Multiset (Station × Proc)) :=
      Story.roll_start config workload logLevel ▸ hx
    exact absurd nobody (Multiset.notMem_zero x)
  | @tail d d' path next ih =>
    have reachable' : Reachable (.start config workload logLevel) d' := path.tail next
    obtain ⟨library, -⟩ := Moment.distinct_of_library reachable'.moment
    have scenes := Scene.steps_of_reachable (Reachable.moment path)
    have tidy := Scene.tidy_of_steps (Scene.fresh_start config workload logLevel) scenes
    obtain ⟨proper, -⟩ := Moment.proper_of_reachable (Reachable.moment path)
    obtain ⟨proper', distinct⟩ := Moment.proper_of_reachable reachable'.moment
    let c' : Chronicle σ := ⟨d'.moment, d.moment.begun d'.moment⟩
    have step : Story.Next d.moment.story c'.story := Story.next_of_next tidy ⟨next.1, rfl⟩
    have new : c'.story.AllNew := Story.allNew_of_library library
    have others : d'.history pid = d.history pid ∧
        (d.moment.begun d'.moment).count (some pid) = 0 →
        d'.moment.story.Follows config.ioDevices pid (d'.history pid) := by
      rintro ⟨history, count⟩
      have follows := ih.next step proper distinct new count
      exact history ▸ ⟨follows.stands, follows.unknown⟩
    by_cases begun : d'.moment.ledger.machine.iteration = d.moment.ledger.machine.iteration
    · exact others (next.history_eq (.inl begun))
    obtain ⟨rest, idle | ⟨p, cause, running, done, closing⟩⟩ :=
      next.1.cases_of_begun (Story.keyed_of_tidy tidy) begun
    · refine others (next.history_eq (.inr ?_))
      rw [Machine.runningPid?, idle]
      exact (Option.some_ne_none _).symm
    by_cases own : p.pid = pid
    case neg =>
      refine others (next.history_eq (.inr ?_))
      rw [Machine.runningPid?, running, Option.map_some, Ne, Option.some.injEq]
      exact own
    subst own
    by_cases solitary : p.plan.Solitary
    · have length : d.moment.ledger.machine.devices.length = config.ioDevices := by
        have same := Scene.length_devices_of_steps scenes
        simpa [Ledger.scene, Machine.start] using same
      rw [← length] at ih ⊢
      exact next.follows_own ih rest running begun done closing solitary proper' distinct
    · have here := Story.mem_roll_of_running d.moment.ledger.dropped running
      obtain ⟨q, hq, outline⟩ := proper.exists_arrived here
      have arrived := (Story.Steps.arrived_prefix step.steps).subset hq
      have own : q.pid = p.pid := congrArg (·.pid) outline
      have follows : c'.story.Follows config.ioDevices p.pid (d'.history p.pid) :=
        Story.follows_of_not_solitary proper' distinct arrived own
          fun alone => solitary ((Proc.solitary_iff_of_outline_eq outline).1 alone)
      exact ⟨follows.stands, follows.unknown⟩

/-- A process of a library workload that is I/O-bound or is to end shares nothing. -/
theorem Reachable.solitary [Workload.Library σ]
    (reachable : Reachable (.start config workload logLevel) d) {q : Proc}
    (arrived : q ∈ d.moment.ledger.arrived.flatMap Arrival.procs)
    (alone : q.kind = .ioBound ∨ 0 < q.terminateAfter) : q.plan.Solitary := by
  obtain ⟨library, -⟩ := Moment.distinct_of_library reachable.moment
  obtain ⟨a, ha, hq⟩ := List.mem_flatMap.1 arrived
  exact (library a ha).solitary hq alone

/-- The record of a process that shares nothing stands where the diary has led the process. -/
theorem Reachable.exists_stands [Workload.Library σ]
    (reachable : Reachable (.start config workload logLevel) d) {q r : Proc}
    (arrived : q ∈ d.moment.ledger.arrived.flatMap Arrival.procs) (solitary : q.plan.Solitary)
    (kept : d.moment.ledger.Keeps r) (own : r.pid = q.pid) :
    ∃ st, (st = .ended ↔ d.moment.ledger.Ended r) ∧
      Stands config.ioDevices (d.history q.pid) (Duty.due d.moment.pending) (st, r.core) ∧
      r.plan = q.plan ∧ r.maxPc = q.maxPc ∧ r.terminateAfter = q.terminateAfter := by
  obtain ⟨proper, distinct⟩ := Moment.proper_of_reachable reachable.moment
  have tidy := Scene.tidy_of_steps (Scene.fresh_start config workload logLevel)
    (Scene.steps_of_reachable reachable.moment)
  obtain ⟨st, mem, ended⟩ : ∃ st, (st, r.core) ∈ d.moment.ledger.machine.roll
      d.moment.ledger.dropped ∧ (st = .ended ↔ d.moment.ledger.Ended r) := by
    by_cases ended : d.moment.ledger.Ended r
    · exact ⟨.ended, Ledger.mem_roll_of_ended ended, iff_of_true rfl ended⟩
    · obtain ⟨st, mem, past⟩ := Ledger.exists_station_of_keeps tidy kept
      exact ⟨st, mem, iff_of_false (fun past' => ended (past past')) ended⟩
  have outline : r.core.outline = q.outline := proper.outline_eq distinct mem arrived own
  have shared : ∀ triggers id, q.plan ≠ .rendezvous triggers id := by
    intro triggers id plan
    rw [plan] at solitary
    exact solitary
  have plan : r.plan = q.plan := Proc.plan_eq_of_outline_eq outline shared
  have stands := (reachable.follows q.pid).stands _ mem own (plan ▸ solitary)
  have maxPc : r.maxPc = q.maxPc := congrArg (·.maxPc) outline
  have limit : r.terminateAfter = q.terminateAfter := congrArg (·.terminateAfter) outline
  exact ⟨st, ended, stands, plan, maxPc, limit⟩

end Diary
end Mlfq
