import Mlfq.Proofs.Accounting
import Mlfq.Proofs.Journey.Machine
import Mlfq.Proofs.Story.Topics
import Mlfq.Proofs.WorkConservation

/-! # The line before the CPU

The newcomers and those who are ready stand in line. Between two moments of a run somebody who was
elsewhere is put back in line, the newcomers join the ready ones, the first is dispatched, or a
batch comes, before which a reset may have brought all who are ready to the highest priority. -/

namespace Mlfq

/-! ## The first level -/

namespace ReadyQueue

variable {ready rest : ReadyQueue}

/-- The records that are served first. -/
def first (ready : ReadyQueue) : Queue := ready.levels.get Priority.highest

/-- A record is put behind those that are served first if that is its priority. -/
theorem map_pid_first_enqueue (ready : ReadyQueue) (p : Proc) :
    (ready.enqueue p).first.map (·.pid) =
      ready.first.map (·.pid) ++ ([p].filter (·.priority = .highest)).map (·.pid) := by
  show ((ready.levels.set p.priority.val _)[Priority.highest.val]).map (·.pid) = _
  rw [Vector.getElem_set]
  by_cases same : p.priority = .highest
  · rw [if_pos (congrArg Fin.val same), List.filter_cons_of_pos (by simp [same]), Queue.enqueue,
      List.map_append]
    simp only [same]
    rfl
  · rw [if_neg fun e => same (Fin.ext e), List.filter_cons_of_neg (by simp [same])]
    exact (List.append_nil _).symm

theorem map_pid_first_enqueueAll (ready : ReadyQueue) (ps : Queue) :
    (ready.enqueueAll ps).first.map (·.pid) =
      ready.first.map (·.pid) ++ (ps.filter (·.priority = .highest)).map (·.pid) := by
  unfold enqueueAll
  induction ps generalizing ready with
  | nil => exact (List.append_nil _).symm
  | cons p ps ih =>
    rw [List.foldl_cons, ih, map_pid_first_enqueue, List.append_assoc, ← List.map_append,
      ← List.filter_append]
    rfl

/-- The records of the other levels, in order of service. -/
def others (ready : ReadyQueue) : Queue :=
  (List.finRange 16).tail.flatMap fun level => ready.levels.get level

theorem toList_eq_first_append (ready : ReadyQueue) :
    ready.toList = ready.first ++ ready.others := by
  rw [toList_eq_flatMap, List.finRange_succ, List.flatMap_cons]
  rfl

theorem exists_level_of_mem_others {p : Proc} (h : p ∈ ready.others) :
    ∃ level : Priority, level ≠ .highest ∧ p ∈ ready.levels.get level := by
  obtain ⟨level, hlevel, here⟩ := List.mem_flatMap.1 h
  refine ⟨level, ?_, here⟩
  rintro rfl
  exact absurd hlevel (by decide)

theorem first_resetPriorities (ready : ReadyQueue) :
    ready.resetPriorities.first = ready.toList.map fun p => { p with priority := .highest } := by
  show (Vector.set _ _ _ Priority.highest.isLt)[Priority.highest.val] = _
  rw [Vector.getElem_set_self]

/-- What is taken is the head of the first level, or there is nothing at that level. -/
theorem first_of_dequeue {p : Proc} (h : ready.dequeue = some (p, rest)) :
    ready.first = p :: rest.first ∨
      ready.first = [] ∧ rest.first = [] ∧
        ∃ level : Priority, level ≠ .highest ∧ p ∈ ready.levels.get level := by
  obtain ⟨before, level, after, split, taken, none⟩ := List.findSome?_eq_some_iff.1 h
  obtain ⟨⟨x, xs⟩, found, taken⟩ := Option.map_eq_some_iff.1 taken
  cases taken
  have whole := Queue.eq_cons_of_dequeue found
  by_cases same : level = .highest
  · subst same
    left
    show ready.levels[Priority.highest.val] = _ :: (ready.levels.set _ _)[Priority.highest.val]
    rw [Vector.getElem_set_self]
    exact whole
  · right
    have empty : ready.first = [] := by
      have mem : Priority.highest ∈ before := by
        cases before with
        | nil =>
          rw [List.finRange_succ] at split
          exact absurd (List.cons.inj split).1.symm same
        | cons l ls =>
          rw [List.finRange_succ] at split
          exact (List.cons.inj split).1 ▸ List.mem_cons_self
      have nothing := none _ mem
      rw [dequeueLevel, Option.map_eq_none_iff] at nothing
      show ready.levels[Priority.highest.val] = []
      cases here : ready.levels[Priority.highest.val] with
      | nil => rfl
      | cons y ys =>
        rw [here] at nothing
        cases nothing
    have mem : p ∈ ready.levels[level.val] := by
      rw [whole]
      exact List.mem_cons_self
    refine ⟨empty, ?_, level, same, mem⟩
    show (ready.levels.set _ _)[Priority.highest.val] = []
    rw [Vector.getElem_set_ne _ _ fun e => same (Fin.ext e)]
    exact empty

end ReadyQueue

/-! ## What is told of those in line -/

/-- The process that an event admits. -/
def Event.admitted? : Event → Option Pid
  | .admitted pid _ => some pid
  | _ => none

/-- The process that an event dispatches. -/
def Event.dispatched? : Event → Option Pid
  | .dispatched pid _ _ => some pid
  | _ => none

/-- The processes in the order in which they were admitted. -/
def Trace.admissionOrder (t : Trace) : List Pid := t.events.filterMap Event.admitted?

variable {σ : Type}

namespace Machine

/-- The processes in the order in which they were admitted. -/
def admissions (m : Machine σ) : List Pid := m.events.filterMap Event.admitted?

/-- The processes in the order in which they were dispatched, each as often as it was. -/
def dispatchings (m : Machine σ) : List Pid := m.events.filterMap Event.dispatched?

theorem dispatchings_eq (m : Machine σ) : m.dispatchings = m.journal.trace.dispatchOrder := by
  rw [dispatchings, events, Trace.dispatchOrder]
  congr 1

variable {m m' : Machine σ} {topics : List Event.Topic}

theorem Tells.admissions_eq (h : Tells topics m m') (other : .arrival ∉ topics) :
    m'.admissions = m.admissions := by
  obtain ⟨-, es, all, told⟩ := h.journal
  have none : es.filterMap Event.admitted? = [] := by
    rw [List.filterMap_eq_nil_iff]
    intro e he
    cases e <;> first | rfl | exact absurd (all _ he) other
  rw [admissions, events, told, List.filterMap_append, none, List.append_nil]
  rfl

theorem Tells.dispatchings_eq (h : Tells topics m m') (other : .dispatch ∉ topics) :
    m'.dispatchings = m.dispatchings := by
  obtain ⟨-, es, all, told⟩ := h.journal
  have none : es.filterMap Event.dispatched? = [] := by
    rw [List.filterMap_eq_nil_iff]
    intro e he
    cases e <;> first | rfl | exact absurd (all _ he) other
  rw [dispatchings, events, told, List.filterMap_append, none, List.append_nil]
  rfl

/-! ## Putting back in line -/

/-- There is a record of process `pid` out of line. -/
def Elsewhere (m : Machine σ) (pid : Pid) : Prop :=
  ∃ place p, m.Holds (place, p) ∧ place.station ≠ .line ∧ p.pid = pid

/-- Some processes that were elsewhere are put back in line. -/
structure Requeues (m m' : Machine σ) : Prop where
  newcomers : m'.newcomers = m.newcomers
  ready : ∃ ws, m'.ready = m.ready.enqueueAll ws ∧ ∀ w ∈ ws, m.Elsewhere w.pid

namespace Requeues

/-- Nobody is put back in line. -/
theorem of_eq (newcomers : m'.newcomers = m.newcomers) (ready : m'.ready = m.ready) :
    Requeues m m' :=
  ⟨newcomers, [], ready, nofun⟩

/-- Those who are put back waited in one place. -/
theorem of_waiters {place : Place} {ws : Queue} (held : ∀ w ∈ ws, m.Holds (place, w))
    (away : place.station ≠ .line) (newcomers : m'.newcomers = m.newcomers)
    (ready : m'.ready = m.ready.enqueueAll ws) : Requeues m m' :=
  ⟨newcomers, ws, ready, fun w hw => ⟨place, w, held w hw, away, rfl⟩⟩

end Requeues

theorem requeues_preempt (m : Machine σ) : Requeues m m.preempt := by
  unfold preempt
  split
  · exact .of_eq rfl rfl
  · rename_i p running
    refine ⟨rfl, [{ p with pc := m.cpuPc, priority := p.priority.demoted }], rfl, fun w hw => ?_⟩
    rw [List.mem_singleton.1 hw]
    exact ⟨.cpu, p, holds_cpu.2 running, nofun, rfl⟩

theorem requeues_completeIo {d : DeviceId} (h : m.completeIo d = .ok (some m')) :
    Requeues m m' := by
  obtain ⟨device, p, q, countdown, gen, found, queue, rfl⟩ := exists_of_completeIo h
  refine ⟨rfl, [{ p with pc := p.pc + 1 }], rfl, fun w hw => ?_⟩
  rw [List.mem_singleton.1 hw]
  have first : p ∈ device.queue := queue ▸ List.mem_cons_self
  exact ⟨.device d, p, holds_device.2 ⟨device, found, first⟩, nofun, rfl⟩

theorem requeues_startIo (m : Machine σ) (d : DeviceId) : Requeues m (m.startIo d).2 := by
  unfold startIo
  split <;> exact .of_eq rfl rfl

theorem requeues_lock (m : Machine σ) (id : LockId) : Requeues m (m.lock id).2 := by
  unfold lock
  split
  · exact .of_eq rfl rfl
  · split
    · exact .of_eq rfl rfl
    · split <;> exact .of_eq rfl rfl

theorem requeues_unlock (m : Machine σ) (id : LockId) : Requeues m (m.unlock id) := by
  unfold unlock
  split
  · rename_i p l running found
    split
    · exact .of_eq rfl rfl
    · have held : ∀ w ∈ l.woken, m.Holds (.tableLock id, w) :=
        fun w hw => holds_tableLock.2 ⟨l, found, mem_release (.inr hw)⟩
      simp only [Lock.release_eq]
      split <;> exact .of_waiters held nofun rfl rfl
  · exact .of_eq rfl rfl

theorem requeues_tryLock (m : Machine σ) (id : LockId) : Requeues m (m.tryLock id) := by
  unfold tryLock
  split <;> exact .of_eq rfl rfl

theorem requeues_enterChannel (m : Machine σ) (id : ChannelId) :
    Requeues m (m.enterChannel id).2 := by
  unfold enterChannel
  split
  · split <;> exact .of_eq rfl rfl
  · exact .of_eq rfl rfl

theorem requeues_leaveChannel (m : Machine σ) (id : ChannelId) :
    Requeues m (m.leaveChannel id) := by
  unfold leaveChannel
  split
  · rename_i p c running found
    have held : ∀ w ∈ c.lock.woken, m.Holds (.channelLock id, w) :=
      fun w hw => (holds_channel rfl).2 ⟨c, found, mem_release (.inr hw)⟩
    simp only [Lock.release_eq]
    split <;> exact .of_waiters held nofun rfl rfl
  · exact .of_eq rfl rfl

theorem requeues_rendezvous (m : Machine σ) (id : ChannelId) :
    Requeues m (m.rendezvous id).2 := by
  unfold rendezvous
  split
  · rename_i p c running found
    split
    · exact .of_eq rfl rfl
    · rename_i role _
      split
      · have held : ∀ w ∈ c.lock.woken, m.Holds (.channelLock id, w) :=
          fun w hw => (holds_channel rfl).2 ⟨c, found, mem_release (.inr hw)⟩
        refine .of_waiters held nofun rfl ?_
        exact congrArg Prod.snd (c.wait_eq role _ m.ready)
      · cases role with
        | producer =>
          have held : ∀ w ∈ c.fill.head?.toList, m.Holds (.fill id, w) :=
            fun w hw => (holds_channel rfl).2
              ⟨c, found, List.mem_of_mem_head? (Option.mem_toList.1 hw)⟩
          refine .of_waiters held nofun rfl ?_
          exact congrArg Prod.snd (c.produce_eq p.pid m.ready)
        | consumer =>
          have held : ∀ w ∈ c.empty.head?.toList, m.Holds (.empty id, w) :=
            fun w hw => (holds_channel rfl).2
              ⟨c, found, List.mem_of_mem_head? (Option.mem_toList.1 hw)⟩
          refine .of_waiters held nofun rfl ?_
          exact congrArg Prod.snd (c.consume_eq p.pid m.ready)
  · exact .of_eq rfl rfl

theorem requeues_handleTrap (m : Machine σ) (t : Trap) : Requeues m (m.handleTrap t).2 := by
  let counted := m.measure fun c => { c with traps := c.traps.increment t.label }
  have same : ∀ {m'}, Requeues counted m' → Requeues m m' := fun h => ⟨h.newcomers, h.ready⟩
  simp only [handleTrap]
  cases t with
  | io d => exact same (counted.requeues_startIo d)
  | lock id => exact same (counted.requeues_lock id)
  | unlock id | tryUnlock id => exact same (counted.requeues_unlock id)
  | tryLock id => exact same (counted.requeues_tryLock id)
  | rendezvousAcquire id => exact same (counted.requeues_enterChannel id)
  | rendezvousBody id => exact same (counted.requeues_rendezvous id)
  | rendezvousRelease id => exact same (counted.requeues_leaveChannel id)

/-- The step of the running process leaves those in line alone, and moves nobody. -/
theorem requeues_stepRunning {p : Proc} {cause : Option Cause} (running : m.running = some p)
    (h : m.stepRunning = .ok (cause, m')) : Requeues m m' := by
  obtain ⟨m₁, advance, h⟩ := exists_of_bind_eq_ok h
  obtain ⟨t, -, h⟩ := exists_of_bind_eq_ok h
  obtain ⟨q, pc, rfl, advances⟩ := Scene.exists_of_advance (m := m.beginCycle) running advance
  let stepped : Machine σ := { m.beginCycle with running := some q, cpuPc := pc }
  obtain ⟨sinceScan, monitor, journal, scan⟩ := Scene.scanIfDue_eq stepped
  cases t with
  | none =>
    cases h
    rw [scan]
    exact .of_eq rfl rfl
  | some t =>
    have handled : (stepped.scanIfDue.handleTrap t).2 = m' := congrArg Prod.snd (Except.ok.inj h)
    obtain ⟨newcomers, ws, ready, elsewhere⟩ := stepped.scanIfDue.requeues_handleTrap t
    rw [handled, scan] at newcomers ready
    refine ⟨newcomers, ws, ready, fun w hw => ?_⟩
    obtain ⟨place, r, held, away, pid⟩ := elsewhere w hw
    rw [scan] at held
    cases place with
    | cpu =>
      have own : q.pid = p.pid := advances.pid_eq
      have here : q = r := Option.some.inj (holds_cpu.1 held)
      exact ⟨.cpu, p, holds_cpu.2 running, nofun, own.symm.trans (here ▸ pid)⟩
    | newcomers | ready => exact absurd rfl away
    | _ => exact ⟨_, r, held, away, pid⟩

/-! ## Arrivals -/

/-- These processes become the last newcomers, and are admitted in this order. -/
structure Lets (m : Machine σ) (pids : List Pid) (m' : Machine σ) : Prop where
  newcomers : m'.newcomers.map (·.pid) = m.newcomers.map (·.pid) ++ pids
  ready : m'.ready = m.ready
  admissions : m.journal.tracing = true →
    m'.journal.tracing = true ∧ m'.admissions = m.admissions ++ pids

theorem Lets.trans {m'' : Machine σ} {ps qs : List Pid} (h : m.Lets ps m') (h' : m'.Lets qs m'') :
    m.Lets (ps ++ qs) m'' where
  newcomers := by rw [h'.newcomers, h.newcomers, List.append_assoc]
  ready := h'.ready.trans h.ready
  admissions tracing := by
    obtain ⟨tracing, first⟩ := h.admissions tracing
    obtain ⟨tracing, second⟩ := h'.admissions tracing
    exact ⟨tracing, by rw [second, first, List.append_assoc]⟩

theorem lets_admitProc (m : Machine σ) (p : Proc) : m.Lets [p.pid] (m.admitProc p) where
  newcomers := by
    show (m.newcomers.enqueue { p with state := .new }).map (·.pid) = _
    rw [Queue.enqueue, List.map_append]
    rfl
  ready := rfl
  admissions tracing := by
    refine ⟨(Journal.tracing_event ..).trans tracing, ?_⟩
    let counted : Machine σ := { m with census := m.census.noteCreated p.kind }
    have told : (m.admitProc p).events = m.events ++ [.admitted p.pid p.kind] :=
      events_emit (m := counted) tracing _
    rw [Machine.admissions, told, List.filterMap_append]
    rfl

/-- Nothing but the newcomers, those who are ready and the journal has a say. -/
theorem Lets.of_eq {m₀ : Machine σ} {pids : List Pid} (h : m₀.Lets pids m')
    (newcomers : m₀.newcomers = m.newcomers) (ready : m₀.ready = m.ready)
    (journal : m₀.journal = m.journal) : m.Lets pids m' where
  newcomers := newcomers ▸ h.newcomers
  ready := ready ▸ h.ready
  admissions tracing := by
    have admitted := h.admissions (journal ▸ tracing)
    have same : m₀.admissions = m.admissions := by rw [Machine.admissions, events, journal]; rfl
    rwa [same] at admitted

theorem lets_receive (m : Machine σ) (a : Arrival) :
    m.Lets (a.procs.map (·.pid)) (m.receive a) := by
  cases a with
  | single p => exact lets_admitProc m p
  | mutexPair first second reversed =>
    exact ((lets_admitProc _ first).trans (lets_admitProc _ second)).of_eq rfl rfl rfl
  | rendezvousPair producer consumer =>
    have both := (lets_admitProc { m with
        locks := m.locks.reserve.2
        channels := m.channels.add ⟨m.nextChannel⟩
          (.between m.locks.reserve.1 producer.pid consumer.pid)
        nextChannel := m.nextChannel + 1 } (producer.bindChannel ⟨m.nextChannel⟩)).trans
      (lets_admitProc _ (consumer.bindChannel ⟨m.nextChannel⟩))
    rw [Proc.pid_bindChannel, Proc.pid_bindChannel] at both
    exact both.of_eq rfl rfl rfl

theorem lets_foldl_receive (as : List Arrival) (m : Machine σ) :
    m.Lets ((as.flatMap Arrival.procs).map (·.pid)) (as.foldl receive m) := by
  induction as generalizing m with
  | nil => exact ⟨(List.append_nil _).symm, rfl, fun tracing => ⟨tracing, (List.append_nil _).symm⟩⟩
  | cons a as ih =>
    rw [List.flatMap_cons, List.map_append]
    exact (lets_receive m a).trans (ih _)

theorem lets_requestBatch [Workload σ] {n : Nat} (h : m.requestBatch = .ok (n, m')) :
    m.Lets ((m.nextArrivals.flatMap Arrival.procs).map (·.pid)) m' := by
  obtain ⟨batch, answer, h⟩ := exists_of_bind_eq_ok h
  have next : m.nextArrivals = batch.arrivals := by rw [nextArrivals, eq_of_attempt answer]
  cases h
  obtain ⟨newcomers, ready, admissions⟩ :=
    lets_foldl_receive batch.arrivals { m with workload := batch.rest, pids := batch.pids }
  rw [next]
  exact ⟨newcomers, ready, admissions⟩

end Machine
end Mlfq
